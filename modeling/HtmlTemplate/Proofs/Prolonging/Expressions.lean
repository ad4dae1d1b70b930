import HtmlTemplate.Proofs.Statements.Templates

/-! A source that goes on after its end, in the next line. What is read of the source is read of the longer one, too:
the same parts at the same places. This is about expressions that no line end is in. -/

namespace HtmlTemplate

open CharClass Elements Reading Statements

namespace Input

/-- The same place of a source that goes on after its end. -/
def prolonged (tail : List Char) (input : Input) : Input := ⟨input.pos, input.rest ++ tail⟩

variable {tail : List Char} {input stop : Input}

theorem extends_prolonged (tail : List Char) (input : Input) : Extends tail input (input.prolonged tail) := rfl

/-- What has been read tells the place. -/
theorem eq_prolonged {final : Input} (reached : input.Reaches stop) (arrived : (input.prolonged tail).Reaches final)
    (further : Extends tail stop final) : final = stop.prolonged tail := by
  obtain ⟨read, before, pos⟩ := reached
  obtain ⟨more, whole, place⟩ := arrived
  obtain ⟨final, rest⟩ := final
  obtain rfl : rest = stop.rest ++ tail := further
  have same : more = read := by
    have split : input.rest ++ tail = more ++ (stop.rest ++ tail) := whole
    rw [before, List.append_assoc] at split
    exact (List.append_cancel_right split).symm
  obtain rfl : final = input.pos + byteLength more := place
  rw [prolonged, pos, same]

theorem advance_prolonged (begun : input.rest ≠ []) : (input.prolonged tail).advance = input.advance.prolonged tail :=
  eq_prolonged (reaches_advance _) (reaches_advance _) ((extends_prolonged tail input).advance begun)

theorem advanceBy_prolonged {count : Nat} (within : count ≤ input.size) :
    (input.prolonged tail).advanceBy count = (input.advanceBy count).prolonged tail :=
  eq_prolonged (reaches_advanceBy ..) (reaches_advanceBy ..) ((extends_prolonged tail input).advanceBy within)

theorem dropWhile_prolonged {class? : Char → Bool} (apart : Apart class? tail) :
    (input.prolonged tail).dropWhile class? = (input.dropWhile class?).prolonged tail :=
  eq_prolonged (reaches_dropWhile ..) (reaches_dropWhile ..) ((extends_prolonged tail input).dropWhile apart)

/-- What is not in the class stops the reader before the end. -/
theorem dropWhile_within {class? : Char → Bool} (begun : (input.dropWhile class?).rest ≠ []) :
    (input.prolonged tail).dropWhile class? = (input.dropWhile class?).prolonged tail := by
  refine eq_prolonged (reaches_dropWhile ..) (reaches_dropWhile ..) ?_
  rw [rest_dropWhile] at begun
  simp only [Extends, rest_dropWhile, prolonged]
  generalize input.rest = text at begun
  induction text with
  | nil => exact absurd rfl begun
  | cons char text step =>
    by_cases inside : class? char = true
    · simp only [List.cons_append, List.dropWhile_cons_of_pos inside] at begun ⊢
      exact step begun
    · simp only [List.cons_append, List.dropWhile_cons_of_neg inside]

theorem takeWhile_prolonged {class? : Char → Bool} (apart : Apart class? tail) :
    (input.prolonged tail).takeWhile class? = input.takeWhile class? :=
  (extends_prolonged tail input).takeWhile apart

theorem isClass_prolonged {class? : Char → Bool} (apart : Apart class? tail) :
    (input.prolonged tail).isClass class? = input.isClass class? :=
  (extends_prolonged tail input).isClass apart

theorem startsWith_prolonged {word : List Char} (plain : ∀ char ∈ tail.head?, char ∉ word) :
    (input.prolonged tail).startsWith word = input.startsWith word :=
  (extends_prolonged tail input).startsWith plain

/-- What stands between two places does not depend on what comes later. -/
theorem textTo_prolonged (reached : input.Reaches stop) :
    (input.prolonged tail).textTo stop.pos = input.textTo stop.pos := by
  obtain ⟨read, rest, pos⟩ := reached
  have longer : (input.prolonged tail).rest = read ++ (stop.prolonged tail).rest := by
    simp only [prolonged, rest, List.append_assoc]
  have arrived : (input.prolonged tail).Reaches (stop.prolonged tail) := ⟨read, longer, pos⟩
  have whole : (input.prolonged tail).textTo (stop.prolonged tail).pos = read := textTo_of_reaches longer arrived
  exact whole.trans (textTo_of_reaches rest ⟨read, rest, pos⟩).symm

theorem between_prolonged (kind : TokenKind) (reached : input.Reaches stop) :
    Token.between kind (input.prolonged tail) (stop.prolonged tail) = Token.between kind input stop := by
  have text : (input.prolonged tail).textTo stop.pos = input.textTo stop.pos := textTo_prolonged reached
  unfold Token.between
  exact congrArg (fun text => Token.mk kind ⟨input.pos, stop.pos⟩ (String.ofList text) none []) text

end Input

namespace Statements

variable {tail : List Char} {first second : Input}

/-- No class of characters that go on within a line holds a line end. -/
theorem Ended.apart (ended : Ended tail) {class? : Char → Bool} (newline : class? '\n' = false)
    (carriage : class? '\r' = false) : Apart class? tail := by
  intro char member
  rcases Bool.or_eq_true_iff.mp (ended char member) with same | same
  · rwa [beq_iff_eq.mp same]
  · rwa [beq_iff_eq.mp same]

theorem Ended.plain (ended : Ended tail) {word : List Char} (flat : word.any isLineEnd = false) :
    ∀ char ∈ tail.head?, char ∉ word := by
  intro char member inside
  exact List.any_eq_false.mp flat char inside (ended char member)

/-- A line ends in both texts or in none of them. -/
theorem Ended.atLineEnd_eq (ended : Ended tail) (further : Extends tail first second) :
    second.atLineEnd = first.atLineEnd := by
  by_cases begun : first.rest = []
  · have rest : second.rest = tail := by rw [further, begun, List.nil_append]
    rw [ended.atLineEnd rest, Input.atLineEnd, Input.atEnd, begun]
    rfl
  · obtain ⟨char, text, eq⟩ := List.exists_cons_of_ne_nil begun
    rw [Input.atLineEnd, Input.atLineEnd, further.isClass_begun begun, Input.atEnd, Input.atEnd, further, eq]
    rfl

end Statements

namespace Prolonging

variable {ε α β γ : Type} {tail : List Char} {start stop first second : Input}

/-- What one reader gives, the other one gives in the longer source, and both stop at the same place. -/
def Prolongs (tail : List Char) (program : Except ε (Parsed α start)) (other : Except ε (Parsed α stop)) : Prop :=
  ∀ x, program = .ok x → ∃ reached, other = .ok ⟨x.value, x.rest.prolonged tail, reached⟩

namespace Prolongs

theorem found {x : Parsed α start} {y : Parsed α stop} (value : y.value = x.value)
    (rest : y.rest = x.rest.prolonged tail) :
    ∃ reached, (.ok y : Except ε _) = .ok ⟨x.value, x.rest.prolonged tail, reached⟩ := by
  obtain ⟨_, _, reached⟩ := y
  obtain rfl := value
  obtain rfl := rest
  exact ⟨reached, rfl⟩

theorem ok {x : Parsed α start} {y : Parsed α stop} (value : y.value = x.value)
    (rest : y.rest = x.rest.prolonged tail) : Prolongs tail (.ok x : Except ε _) (.ok y) := by
  rintro _ ⟨⟩
  exact found value rest

theorem error {fault : ε} {other : Except ε (Parsed α stop)} :
    Prolongs tail (.error fault : Except ε (Parsed α start)) other := by
  rintro _ ⟨⟩

theorem bind {near far : Input} {program : Except ε (Parsed β near)} {other : Except ε (Parsed β far)}
    {next : Parsed β near → Except ε (Parsed α start)} {follow : Parsed β far → Except ε (Parsed α stop)}
    (prolongs : Prolongs tail program other)
    (goesOn : ∀ x reached, Prolongs tail (next x) (follow ⟨x.value, x.rest.prolonged tail, reached⟩)) :
    Prolongs tail (program >>= next) (other >>= follow) := by
  intro result read
  cases program with
  | error => cases read
  | ok x =>
    obtain ⟨reached, again⟩ := prolongs x rfl
    rw [again]
    exact goesOn x reached result read

theorem map {near far : Input} {program : Except ε (Parsed β near)} {other : Except ε (Parsed β far)}
    {change : Parsed β near → Parsed α start} {alter : Parsed β far → Parsed α stop}
    (prolongs : Prolongs tail program other)
    (goesOn : ∀ x reached, (alter ⟨x.value, x.rest.prolonged tail, reached⟩).value = (change x).value ∧
      (alter ⟨x.value, x.rest.prolonged tail, reached⟩).rest = (change x).rest.prolonged tail) :
    Prolongs tail (program.map change) (other.map alter) := by
  intro result read
  cases program with
  | error => cases read
  | ok x =>
    obtain ⟨reached, again⟩ := prolongs x rfl
    obtain ⟨value, rest⟩ := goesOn x reached
    rw [again]
    obtain rfl := Except.ok.inj read
    exact found value rest

theorem ite {holds : Prop} [Decidable holds] {one two : Except ε (Parsed α start)}
    {other another : Except ε (Parsed α stop)} (yes : holds → Prolongs tail one other)
    (no : ¬ holds → Prolongs tail two another) :
    Prolongs tail (if holds then one else two) (if holds then other else another) := by
  split
  · exact yes ‹_›
  · exact no ‹_›

end Prolongs

/-! Expressions. -/

/-- Options for expressions that end at the end of the line at the latest. -/
structure Lined (options : ParseOptions) : Prop where
  line : options.stops.line = true
  whole : options.stops.unlessContinued = false

theorem lined_inline : Lined .inline := ⟨rfl, rfl⟩

theorem lined_output : Lined .output := ⟨rfl, rfl⟩

variable {options : ParseOptions}

theorem Lined.skip (lined : Lined options) (complete : Bool) (input : Input) :
    Gap.skip options complete input = (input.skipSpacing, !input.skipSpacing.atLineEnd) := by
  rw [Gap.skip, lined.whole, lined.line, Input.atLineEnd]
  dsimp only
  cases input.skipSpacing.isClass isLineEnd with
  | false => rw [Bool.or_false, Bool.and_false, if_neg Bool.false_ne_true, if_neg Bool.false_ne_true, if_pos rfl]
  | true => rw [Bool.or_true, Bool.true_or, Bool.and_true, if_neg Bool.false_ne_true, if_pos rfl, Bool.not_true]

theorem Lined.bridges (lined : Lined options) (ended : Ended tail) : Bridges tail options options where
  closes := ended.follows.closes
  operators := rfl
  gap {first second} further goesOn := by
    simp only [lined.skip] at goesOn ⊢
    refine ⟨by rw [lined.skip]; exact further, ?_⟩
    rw [lined.skip, ended.atLineEnd_eq further]
    exact goesOn

/-- Where something is left, the same operator comes next in both texts, or none. -/
theorem operator_again (further : Extends tail first second) (closes : Closes tail) (begun : first.rest ≠ [])
    (enclosed : Bool) : Again (Option.Rel (Passed tail)) (OperatorReading.read options enclosed first)
      (OperatorReading.read options enclosed second) := by
  obtain ⟨char, text, eq⟩ := List.exists_cons_of_ne_nil begun
  have longer : second.rest = char :: (text ++ tail) := by rw [further, eq, List.cons_append]
  have advanced := further.advance begun
  have symbols := readSymbol_rel further closes
  unfold OperatorReading.read
  generalize OperatorReading.readSymbol? first = symbol at symbols
  generalize OperatorReading.readSymbol? second = sought at symbols
  cases symbols with
  | @some x y passed =>
    obtain ⟨op, next⟩ := x
    obtain ⟨twin, follow⟩ := y
    obtain ⟨same, later⟩ := passed
    obtain rfl : twin = op := same
    exact check_again rfl _ _ _ (.some ⟨rfl, later⟩)
  | none =>
    rw [eq, longer]
    dsimp only
    split
    · exact check_again rfl _ _ _ (.some ⟨rfl, advanced⟩)
    · split
      · exact check_again rfl _ _ _ (.some ⟨rfl, advanced⟩)
      · exact .ok .none

/-- The operators of a whole expression, and where it ends. -/
theorem operators_again (lined : Lined options) (ended : Ended tail) (tree : Expr) {first second : Input}
    (further : Extends tail first second) :
    Again (Kept tail id) (Parser.readOperators options none tree first)
      (Parser.readOperators options none tree second) := by
  have bridges := lined.bridges ended
  have spaced := further.skipSpacing bridges.closes
  have flag : (Gap.skip options true second).2 = (Gap.skip options true first).2 := by
    rw [lined.skip, lined.skip, ended.atLineEnd_eq spaced]
  have after : Extends tail (Gap.skip options true first).1 (Gap.skip options true second).1 := by
    rw [lined.skip, lined.skip]
    exact spaced
  cases goesOn : (Gap.skip options true first).2 with
  | false =>
    rw [@readOperators_ended options none first tree (.inl goesOn),
      @readOperators_ended options none second tree (.inl (flag.trans goesOn))]
    exact .ok ⟨rfl, after⟩
  | true =>
    have reached := flag.trans goesOn
    have operators : Again (Option.Rel (Passed tail))
        (OperatorReading.read options false (Gap.skip options true first).1) _ :=
      operator_again after bridges.closes (visible_skip goesOn).ne_nil false
    cases found : OperatorReading.read options false (Gap.skip options true first).1 with
    | error fault =>
      rw [@readOperators_failed options none first tree goesOn rfl _ found]
      exact .error
    | ok result =>
      obtain ⟨other, sought, related⟩ := operators result found
      cases related with
      | none =>
        rw [@readOperators_ended options none first tree (.inr ⟨rfl, found⟩),
          @readOperators_ended options none second tree (.inr ⟨rfl, sought⟩)]
        exact .ok ⟨rfl, after⟩
      | @some x y passed =>
        obtain ⟨op, next⟩ := x
        obtain ⟨twin, follow⟩ := y
        obtain ⟨same, later⟩ := passed
        obtain rfl : twin = op := same
        obtain ⟨_, alone⟩ := @readOperators_applied options none first tree goesOn rfl _ _ found
        obtain ⟨_, longer⟩ := @readOperators_applied options none second tree reached rfl _ _ sought
        rw [alone, longer]
        have applied : Again (Kept tail id) (Parser.readApplied options tree twin next)
            (Parser.readApplied options tree twin follow) :=
          readApplied_again bridges twin (fun _ _ _ _ => rfl) tree later
        refine .bind applied fun x y kept => ?_
        have shorter := size_applied_lt found x
        obtain ⟨value, rest⟩ := kept
        rw [value]
        exact .map (operators_again lined ended x.value rest) fun z w found => ⟨found.value, found.rest⟩
termination_by first.size

theorem prolongs_of_again {input : Input} {program : Except ParseError (Parsed α input)}
    {other : Except ParseError (Parsed α (input.prolonged tail))} (again : Again (Kept tail id) program other) :
    Prolongs tail program other := by
  intro x read
  obtain ⟨y, sought, kept⟩ := again x read
  rw [sought]
  exact Prolongs.found kept.value (Input.eq_prolonged x.reached y.reached kept.rest)

theorem parseFrom_prolongs (lined : Lined options) (ended : Ended tail) (input : Input) :
    Prolongs tail (Expr.parseFrom options input) (Expr.parseFrom options (input.prolonged tail)) := by
  have bridges := lined.bridges ended
  have further := Input.extends_prolonged tail input
  have operand : Again (Kept tail id) (Parser.readOperand options .group input)
      (Parser.readOperand options .group (input.prolonged tail)) :=
    readOperand_again bridges (.refl .group) (bridges.approaches further)
  refine prolongs_of_again (.bind operand fun x y kept => ?_)
  obtain ⟨value, rest⟩ := kept
  rw [value]
  exact .bind (operators_again lined ended x.value rest) fun z w found => .ok ⟨found.value, found.rest⟩

/-- An expression in markup. -/
theorem embedded_prolongs (lined : Lined options) (ended : Ended tail) (place : ExprPlace)
    (same : second = first.prolonged tail) :
    Prolongs tail (Embedded.read options place first) (Embedded.read options place second) := by
  obtain rfl := same
  have parsed := parseFrom_prolongs lined ended first
  unfold Embedded.read
  cases found : Expr.parseFrom options first with
  | error => exact .error
  | ok x =>
    obtain ⟨reached, again⟩ := parsed x found
    have text : (first.prolonged tail).textTo (x.rest.prolonged tail).pos = first.textTo x.rest.pos :=
      show (first.prolonged tail).textTo x.rest.pos = _ from Input.textTo_prolonged x.reached
    rw [again]
    refine .ok ?_ (Input.dropWhile_prolonged (ended.apart rfl rfl))
    dsimp only
    rw [text]
    rfl

end Prolonging

end HtmlTemplate
