import HtmlTemplate.Proofs.Reading.Basic
import HtmlTemplate.Proofs.Respelling.Literals
import HtmlTemplate.Proofs.Respelling.Quotes

/-! Expressions in two texts that differ in blanks are the same, but for quoted strings
that span lines. -/

namespace HtmlTemplate

namespace Expr

/-- An expression without what is quoted in it. -/
def muted : Expr → Expr
  | literal (.text _) => literal (.text "")
  | unary op operand => unary op operand.muted
  | binary op left right => binary op left.muted right.muted
  | bracketed bracket inner => bracketed bracket inner.muted
  | tree => tree

theorem muted_join (op : Op) (left : Expr) (right : Option Expr) :
    (join op left right).muted = join op left.muted (right.map muted) := by
  cases right <;> rfl

theorem muted_extend (op : Op) (right : Option Expr) (tree : Expr) :
    (extend op right tree).muted = extend op (right.map muted) tree.muted := by
  induction tree with
  | binary link left chain _ step =>
    rw [extend, muted, extend]
    split
    · rw [muted, step]
    · rw [muted_join, muted]
  | literal value =>
    cases value <;> exact muted_join ..
  | _ => exact muted_join ..

/-- What is quoted in an expression has nothing to do with where operators are added. -/
theorem muted_insert (op : Op) (right : Option Expr) (tree : Expr) :
    (insert op right tree).muted = insert op (right.map muted) tree.muted := by
  induction tree with
  | binary link left chain _ step =>
    rw [insert, muted, insert]
    split
    · rw [muted, step]
    · split
      · rw [muted, muted_extend]
      · rw [muted_join, muted]
  | unary link operand step =>
    rw [insert, muted, insert]
    split
    · rw [muted, step]
    · rw [muted_join, muted]
  | literal value =>
    cases value <;> exact muted_join ..
  | _ => exact muted_join ..

end Expr

namespace Respelling

open CharClass Quoting Reading

variable {spelling : Spelling} {first second : Input}

/-! What may stand between the parts of an expression. -/

/-- Two expressions both go on, from places side by side, or both end there. -/
structure Pauses (spelling : Spelling) (gap other : Input × Bool) : Prop where
  beside : Beside spelling gap.1 other.1
  same : other.2 = gap.2

/-- Options that differ in what lines start with that continue an expression. -/
structure Abreast (spelling : Spelling) (options others : ParseOptions) : Prop where
  operators : others.operators = options.operators
  stops : others.stops = options.stops
  plain : Plain options.continuation
  same : spelling.keeps → others = options
  continued : options.stops.unlessContinued = true → ∀ (complete : Bool) (first second : Input),
    Beside spelling first second → Pauses spelling (Gap.skipContinued options.continuation complete none first)
      (Gap.skipContinued others.continuation complete none second)

theorem Abreast.refl {options : ParseOptions} (none : options.continuation = [])
    (ends : options.stops.unlessContinued = false) : Abreast spelling options options :=
  ⟨rfl, rfl, by rw [none]; exact List.forall_mem_nil _, fun _ => rfl,
    fun continued => absurd (ends.symm.trans continued) Bool.false_ne_true⟩

theorem skip_pauses {options others : ParseOptions} (abreast : Abreast spelling options others)
    (complete : Bool) (beside : Beside spelling first second) :
    Pauses spelling (Gap.skip options complete first) (Gap.skip others complete second) := by
  unfold Gap.skip
  rw [abreast.stops]
  split
  · exact abreast.continued ‹_› complete first second beside
  · dsimp only
    rw [beside.skipSpacing.isClass ⟨rfl, rfl⟩]
    split
    · exact ⟨beside.skipSpacing, rfl⟩
    · split
      · exact ⟨beside.skipSpacing, by rw [beside.skipSpacing.atEnd]⟩
      · exact ⟨beside.skipWhitespace, by rw [beside.skipWhitespace.atEnd]⟩

/-! Nothing that is skipped is quoted. -/

theorem blankLine_clear {input next : Input} (found : Gap.blankLine? input = some next) : Clear input next := by
  unfold Gap.blankLine? at found
  split at found
  · cases found
  · rename_i after eaten
    split at found
    · cases found
      exact (Clear.of_eatNewline? eaten).trans (.skipSpacing after)
    · cases found

theorem skipContinued_clear {start : Input} {continuation : List Char} (plain : Plain continuation)
    (complete : Bool) (lineEnd : Option Input) (input : Input) (clear : Clear start input)
    (ends : ∀ stop ∈ lineEnd, Clear start stop) :
    Clear start (Gap.skipContinued continuation complete lineEnd input).1 := by
  have stops (lineEnd : Option Input) (spaced : Input) (ends : ∀ stop ∈ lineEnd, Clear start stop)
      (clear : Clear start spaced) : Clear start (lineEnd.getD spaced) := by
    cases lineEnd with
    | none => exact clear
    | some last => exact ends last rfl
  fun_induction Gap.skipContinued continuation complete lineEnd input with
  | case1 lineEnd input spaced atEnd stop next found step =>
    have here := clear.trans (.skipSpacing input)
    refine step (here.trans (blankLine_clear found)) fun other member => ?_
    cases member
    exact stops lineEnd spaced ends here
  | case2 lineEnd input spaced => exact stops lineEnd spaced ends (clear.trans (.skipSpacing input))
  | case3 lineEnd input spaced => exact stops lineEnd spaced ends (clear.trans (.skipSpacing input))
  | case4 lineEnd input spaced atEnd found nonempty next eaten step =>
    refine step ((clear.trans (.skipSpacing input)).trans (.of_eatWord? eaten plain)) fun other member => ?_
    cases member
  | case5 lineEnd input spaced => exact clear.trans (.skipSpacing input)

theorem skip_clear {options : ParseOptions} (plain : Plain options.continuation) (complete : Bool)
    (input : Input) : Clear input (Gap.skip options complete input).1 := by
  unfold Gap.skip
  split
  · exact skipContinued_clear plain complete none input (.refl input) nofun
  · dsimp only
    split
    · exact .skipSpacing input
    · split
      · exact .skipSpacing input
      · exact .skipWhitespace input

/-! Operators. -/

theorem eatWord_gives {α : Type} (value : α) {word : List Char} (solid : Visible word) (plain : Plain word)
    (beside : Beside spelling first second) :
    Option.Rel (Gives spelling first) ((first.eatWord? word).map (value, ·))
      ((second.eatWord? word).map (value, ·)) := by
  unfold Input.eatWord?
  rw [beside.startsWith solid]
  split
  · rename_i starts
    exact .some ⟨rfl, beside.advanceBy starts solid, .advanceBy starts plain⟩
  · exact .none

theorem readSymbol_gives (beside : Beside spelling first second) :
    Option.Rel (Gives spelling first) (OperatorReading.readSymbol? first) (OperatorReading.readSymbol? second) := by
  have words : ∀ symbol ∈ OperatorReading.symbols,
      Visible (symbol.1 :: symbol.2.1) ∧ Plain (symbol.1 :: symbol.2.1) := by
    decide
  refine findSome_rel _ fun symbol member => ?_
  obtain ⟨solid, plain⟩ := words symbol member
  exact eatWord_gives _ solid plain beside

theorem check_reads {options others : ParseOptions} (abreast : Abreast spelling options others) (op : Op)
    (pos place : Nat) {α β : Type} {values : α → β → Prop} {value : α} {other : β} (related : values value other) :
    Reads values ((OperatorReading.check options op pos).map fun _ => value)
      ((OperatorReading.check others op place).map fun _ => other) := by
  unfold OperatorReading.check
  rw [abreast.operators]
  split
  · exact .ok related
  · exact .error rfl

/-- An operator of one character. -/
theorem advance_gives {α : Type} (value : α) {class? : Char → Bool} (found : first.isClass class? = true)
    (solid : Solid class?) (double : class? '"' = false) (single : class? '\'' = false)
    (beside : Beside spelling first second) : Gives spelling first (value, first.advance) (value, second.advance) :=
  ⟨rfl, beside.advance solid found, .advance found double single⟩

theorem read_gives {options others : ParseOptions} (abreast : Abreast spelling options others) (enclosed : Bool)
    (beside : Beside spelling first second) :
    Reads (Option.Rel (Gives spelling first)) (OperatorReading.read options enclosed first)
      (OperatorReading.read others enclosed second) := by
  have symbols := readSymbol_gives beside
  unfold OperatorReading.read
  generalize OperatorReading.readSymbol? first = found at symbols
  generalize OperatorReading.readSymbol? second = sought at symbols
  cases symbols with
  | @some x y gives =>
    obtain ⟨op, next⟩ := x
    obtain ⟨twin, follow⟩ := y
    obtain rfl : twin = op := gives.value
    exact check_reads abreast _ _ _ (.some gives)
  | none =>
    have heads := beside.heads
    dsimp only
    generalize start : first.rest = text at heads
    generalize second.rest = other at heads
    cases heads with
    | nil => exact .ok .none
    | @cons char mark text other alike =>
      have one (class? : Char → Bool) : first.isClass class? = class? char := isClass_eq start class?
      have opens : OperatorReading.opening? mark = OperatorReading.opening? char := Blind.eq ⟨rfl, rfl⟩ alike
      have simple : OperatorReading.single? mark = OperatorReading.single? char := Blind.eq ⟨rfl, rfl⟩ alike
      have separates : OperatorReading.separator? options.stops enclosed mark =
          OperatorReading.separator? options.stops enclosed char := Blind.eq ⟨rfl, rfl⟩ alike
      dsimp only
      rw [opens, simple, abreast.stops, separates]
      cases opening : OperatorReading.opening? char with
      | some op =>
        have found := one fun char => (OperatorReading.opening? char).isSome
        rw [opening] at found
        exact check_reads abreast _ _ _ (.some (advance_gives _ found ⟨rfl, rfl, rfl, rfl⟩ rfl rfl beside))
      | none =>
        dsimp only
        cases single : (OperatorReading.single? char).or
            (OperatorReading.separator? options.stops enclosed char) with
        | none => exact .ok .none
        | some op =>
          have found := one fun char => ((OperatorReading.single? char).or
            (OperatorReading.separator? options.stops enclosed char)).isSome
          rw [single] at found
          exact check_reads abreast _ _ _ (.some (advance_gives _ found ⟨rfl, rfl, rfl, rfl⟩ rfl rfl beside))

theorem readLeading_gives {options others : ParseOptions} (abreast : Abreast spelling options others)
    (beside : Beside spelling first second) :
    Reads (Option.Rel (Gives spelling first)) (OperatorReading.readLeading options first)
      (OperatorReading.readLeading others second) := by
  have word {word : List Char} (solid : Visible word) (plain : Plain word) (starts : first.startsWith word = true)
      (op : Op) : Reads (Option.Rel (Gives spelling first))
        ((OperatorReading.check options op (first.advanceBy word.length).pos).map
          fun _ => some (some op, first.advanceBy word.length))
        ((OperatorReading.check others op (second.advanceBy word.length).pos).map
          fun _ => some (some op, second.advanceBy word.length)) :=
    check_reads abreast op _ _ (.some ⟨rfl, beside.advanceBy starts solid, .advanceBy starts plain⟩)
  have mark {char : Char} (solid : isWhitespace char = false) (plain : isQuote char = false)
      (found : first.isAt char = true) (op : Op) : Reads (Option.Rel (Gives spelling first))
        ((OperatorReading.check options op first.advance.pos).map fun _ => some (some op, first.advance))
        ((OperatorReading.check others op second.advance.pos).map fun _ => some (some op, second.advance)) :=
    check_reads abreast op _ _ (.some ⟨rfl, beside.advance_isAt found solid, .advance_isAt found plain⟩)
  have declares : (second.startsWith ['v', 'a', 'r'] && second.isClassAt isSpacing 3) =
      (first.startsWith ['v', 'a', 'r'] && first.isClassAt isSpacing 3) := by
    rw [beside.startsWith (by decide)]
    cases starts : first.startsWith ['v', 'a', 'r'] with
    | false => rfl
    | true =>
      rw [isClassAt_eq, isClassAt_eq]
      exact (beside.advanceBy starts (by decide)).isClass ⟨rfl, rfl⟩
  unfold OperatorReading.readLeading
  dsimp only
  rw [declares, beside.startsWith (by decide), beside.startsWith (by decide), beside.isAt rfl, beside.isAt rfl,
    beside.isAt rfl, beside.isAt rfl]
  split
  · rename_i starts
    exact word (by decide) (by decide) (Bool.and_eq_true_iff.mp starts).1 .declare
  split
  · rename_i starts
    exact word (by decide) (by decide) starts .preIncrement
  split
  · rename_i starts
    exact word (by decide) (by decide) starts .preDecrement
  split
  · rename_i found
    exact mark rfl rfl found .not
  split
  · rename_i found
    exact mark rfl rfl found .negate
  split
  · rename_i found
    exact mark rfl rfl found .complement
  split
  · rename_i found
    exact .ok (.some ⟨rfl, beside.advance_isAt found rfl, .advance_isAt found rfl⟩)
  · exact .ok .none

/-! Operands. -/

/-- Two expressions that are the same but for what is quoted in them, and wholly the same if what is given
holds and no quoted string spans lines. -/
structure Twin (spelling : Spelling) (given : Prop) (x : Parsed Expr first) (y : Parsed Expr second) : Prop where
  leads : Leads spelling first x.rest y.rest (given → y.value = x.value)
  muted : y.value.muted = x.value.muted

namespace Twin

variable {given : Prop}

theorem of_gives {x : Parsed Expr first} {y : Parsed Expr second} (value : y.value = x.value)
    (beside : Beside spelling x.rest y.rest) (clear : Clear first x.rest) : Twin spelling given x y :=
  ⟨(Leads.of_clear beside clear).mono fun _ _ => value, congrArg Expr.muted value⟩

theorem widen {middle between : Input} {x : Parsed Expr middle} {y : Parsed Expr between}
    (twin : Twin spelling given x y) (clear : Clear first middle) (reached : first.Reaches middle)
    (follows : second.Reaches between) : Twin spelling given (x.widen reached) (y.widen follows) :=
  ⟨twin.leads.after clear, twin.muted⟩

end Twin

theorem readWord_twin {given : Prop} (change : String → Expr) (beside : Beside spelling first second) :
    Twin spelling given ((Literal.readWord first).map change) ((Literal.readWord second).map change) :=
  .of_gives (congrArg (fun word => change (String.ofList word)) (beside.takeWhile ⟨rfl, rfl, rfl, rfl⟩))
    (beside.dropWhile ⟨rfl, rfl, rfl⟩) (.dropWhile rfl rfl first)

theorem readWord_value (beside : Beside spelling first second) :
    (Literal.readWord second).value = (Literal.readWord first).value :=
  congrArg String.ofList (beside.takeWhile ⟨rfl, rfl, rfl, rfl⟩)

theorem readName_reads {given : Prop} (beside : Beside spelling first second) :
    Reads (Twin spelling given) (Parser.readName first) (Parser.readName second) := by
  unfold Parser.readName
  dsimp only
  rw [readWord_value beside]
  split
  · exact .error rfl
  · exact .ok (readWord_twin _ beside)

theorem readNothing_reads {given : Prop} (op : Op) (beside : Beside spelling first second) :
    Reads (Twin spelling given) (Parser.readValue.nothing op first) (Parser.readValue.nothing op second) := by
  unfold Parser.readValue.nothing
  split
  · exact .ok (.of_gives rfl beside (.refl first))
  · exact .error rfl

theorem readValue_reads {given : Prop} (op : Op) (beside : Beside spelling first second) :
    Reads (Twin spelling given) (Parser.readValue op first) (Parser.readValue op second) := by
  have nothing : Reads (Twin spelling given) _ _ := readNothing_reads op beside
  have word : Reads (Twin spelling given)
      (if (Literal.readWord first).value = "" then Parser.readValue.nothing op first
        else .ok ((Literal.readWord first).map Literal.wordExpr))
      (if (Literal.readWord second).value = "" then Parser.readValue.nothing op second
        else .ok ((Literal.readWord second).map Literal.wordExpr)) := by
    rw [readWord_value beside]
    split
    · exact nothing
    · exact .ok (readWord_twin _ beside)
  have heads := beside.heads
  unfold Parser.readValue
  generalize start : first.rest = text at heads
  generalize second.rest = other at heads
  cases heads with
  | nil => exact nothing
  | @cons char mark text other alike =>
    have quoted : isQuote mark = isQuote char := Blind.eq ⟨rfl, rfl⟩ alike
    have digit : isDigit mark = isDigit char := Blind.eq ⟨rfl, rfl⟩ alike
    simp only [← isQuote_iff, quoted, digit]
    split
    · rename_i quotes
      obtain rfl : mark = char := eq_of_look (step_quote quotes).2 alike
      refine .map (readString_reads quotes start beside) fun x y leads => ?_
      exact ⟨leads.mono fun same _ => congrArg (fun text => Expr.literal (.text text)) same, rfl⟩
    · split
      · have number := readNumber_gives beside
        exact .ok (.of_gives (congrArg Expr.literal number.value) number.beside number.clear)
      · exact word

/-! Rows of operands and operators. -/

theorem close_spec (enclosure : Enclosure) :
    isWhitespace enclosure.close = false ∧ isQuote enclosure.close = false := by
  cases enclosure with
  | bracket bracket => cases bracket <;> exact ⟨rfl, rfl⟩
  | branch => exact ⟨rfl, rfl⟩

/-- Of a row up to a closing mark: the mark follows. -/
structure Chain (spelling : Spelling) (given : Prop) (close : Option Char) (x : Parsed Expr first)
    (y : Parsed Expr second) : Prop where
  twin : Twin spelling given x y
  closed : ∀ mark ∈ close, x.rest.isAt mark = true

theorem gap_clear {options others : ParseOptions} (abreast : Abreast spelling options others) (complete : Bool)
    (input : Input) : Clear input (Gap.skip options complete input).1 :=
  skip_clear abreast.plain complete input

theorem Twin.led {given : Prop} (mark : Option Op) {x : Parsed Expr first} {y : Parsed Expr second}
    (twin : Twin spelling given x y) : Twin spelling given (x.map (Parser.lead mark)) (y.map (Parser.lead mark)) := by
  refine ⟨twin.leads.mono fun same given => congrArg (Parser.lead mark) (same given), ?_⟩
  cases mark with
  | none => exact twin.muted
  | some op => exact congrArg (Expr.unary op) twin.muted

theorem Twin.advance {given : Prop} {close : Char} (solid : isWhitespace close = false) (plain : isQuote close = false)
    {x : Parsed Expr first} {y : Parsed Expr second} (twin : Twin spelling given x y)
    (closed : x.rest.isAt close = true) :
    Leads spelling first x.rest.advance y.rest.advance (given → y.value = x.value) :=
  twin.leads.before (.advance_isAt closed plain) (twin.leads.beside.advance_isAt closed solid)

section

variable {options others : ParseOptions}

mutual

theorem readOperand_reads (abreast : Abreast spelling options others) {given : Prop} (op : Op) {first second : Input}
    (beside : Beside spelling first second) :
    Reads (Twin spelling given) (Parser.readOperand options op first) (Parser.readOperand others op second) := by
  have gap := skip_pauses abreast false beside
  have clear := gap_clear abreast false first
  have shorter := Gap.size_skip_le options false first
  rw [Parser.readOperand, Parser.readOperand, gap.same]
  split
  · exact .error rfl
  · split
    · exact .map (readName_reads gap.beside) fun x y twin => twin.widen clear _ _
    · exact .map (readLed_reads abreast op gap.beside) fun x y twin => twin.widen clear _ _
termination_by 8 * first.size + 1
decreasing_by all_goals omega

theorem readLed_reads (abreast : Abreast spelling options others) {given : Prop} (op : Op) {first second : Input}
    (beside : Beside spelling first second) :
    Reads (Twin spelling given) (Parser.readLed options op first) (Parser.readLed others op second) := by
  have leading := readLeading_gives abreast beside
  cases found : OperatorReading.readLeading options first with
  | error error =>
    rw [found] at leading
    generalize sought : OperatorReading.readLeading others second = result at leading
    cases leading with
    | error same =>
      rw [readLed_failed found, readLed_failed sought]
      exact .error same
  | ok marked =>
    rw [found] at leading
    generalize sought : OperatorReading.readLeading others second = result at leading
    cases leading with
    | ok related =>
      cases related with
      | @some x y gives =>
        obtain ⟨mark, next⟩ := x
        obtain ⟨twin, follow⟩ := y
        obtain ⟨same, after, clear⟩ := gives
        obtain rfl : twin = mark := same
        have gap : Pauses spelling (Gap.skip options false next) (Gap.skip others false follow) :=
          skip_pauses abreast false after
        have later := (OperatorReading.passes_of_readLeading found).2
        have shorter := Gap.size_skip_le options false next
        obtain ⟨reached, one⟩ := readLed_marked found op
        obtain ⟨follows, two⟩ := readLed_marked sought op
        rw [one, two, gap.same]
        split
        · exact .error rfl
        · have step : Reads (Twin spelling given) _ _ := readLed_reads abreast op gap.beside
          refine .map step fun x y operand => ?_
          exact (operand.led twin).widen (clear.trans (gap_clear abreast false next)) _ _
      | none =>
        have value : Reads (Twin spelling given) _ _ := readValue_reads op beside
        rw [readLed_unmarked found, readLed_unmarked sought]
        have heads := beside.heads
        generalize start : first.rest = text at heads
        generalize second.rest = other at heads
        cases heads with
        | nil => exact value
        | @cons char mark text other alike =>
          have opens : Enclosure.ofOpening? mark = Enclosure.ofOpening? char := Blind.eq ⟨rfl, rfl⟩ alike
          dsimp only
          rw [opens]
          cases opening : Enclosure.ofOpening? char with
          | none => exact value
          | some enclosure =>
            have opens := isClass_eq start fun char => (Enclosure.ofOpening? char).isSome
            rw [opening] at opens
            have shorter : first.advance.size < first.size := (Input.passes_advance_of_isClass opens).2
            have step : Reads (Twin spelling given) _ _ :=
              readGroup_reads abreast enclosure (beside.advance ⟨rfl, rfl, rfl, rfl⟩ opens)
            exact .map step fun x y group => group.widen (.advance opens rfl rfl) _ _
termination_by 8 * first.size
decreasing_by all_goals omega

theorem readGroup_reads (abreast : Abreast spelling options others) {given : Prop} (enclosure : Enclosure)
    {first second : Input} (beside : Beside spelling first second) :
    Reads (Twin spelling given) (Parser.readGroup options enclosure first)
      (Parser.readGroup others enclosure second) := by
  have gap := skip_pauses abreast false beside
  have clear := gap_clear abreast false first
  have shorter := Gap.size_skip_le options false first
  obtain ⟨solid, plain⟩ := close_spec enclosure
  have marks : ∀ mark ∈ some enclosure.close, isWhitespace mark = false ∧ isQuote mark = false := by
    rintro mark ⟨⟩
    exact ⟨solid, plain⟩
  rw [Parser.readGroup, Parser.readGroup, gap.same]
  dsimp only
  split
  · exact .error rfl
  · unfold Input.eat?
    rw [gap.beside.isAt solid]
    split
    · rename_i empty next empties eaten
      have closes : (Gap.skip options false first).1.isAt enclosure.close = true := by
        cases closes : (Gap.skip options false first).1.isAt enclosure.close with
        | true => rfl
        | false =>
          rw [closes] at eaten
          cases eaten
      rw [empties, if_pos closes]
      exact .ok (.of_gives rfl (gap.beside.advance_isAt closes solid)
        (clear.trans (.advance_isAt closes plain)))
    · rename_i open?
      split
      · rename_i empty next empties eaten
        split at eaten
        · rename_i closes
          exact absurd (if_pos closes) (open? _ _ empties)
        · cases eaten
      · have operand : Reads (Twin spelling True) _ _ := readOperand_reads abreast enclosure.op gap.beside
        refine .bind operand fun x y twin => ?_
        have shorter := x.le
        have inner : Reads (Chain spelling (y.value = x.value) (some enclosure.close)) _ _ :=
          readOperators_reads abreast (some enclosure.close) marks id twin.muted twin.leads.beside
        refine .bind inner fun z w chain => .ok ⟨?_, congrArg (Expr.bracketed enclosure.mark) chain.twin.muted⟩
        have marked := chain.twin.advance solid plain (chain.closed _ rfl)
        refine ((twin.leads.trans marked).after clear).mono fun same _ => ?_
        exact congrArg (Expr.bracketed enclosure.mark) (same.2 (same.1 trivial))
termination_by 8 * first.size + 3
decreasing_by all_goals omega

theorem readOperators_reads (abreast : Abreast spelling options others) {given : Prop} (close : Option Char)
    (marks : ∀ mark ∈ close, isWhitespace mark = false ∧ isQuote mark = false) {tree copy : Expr}
    (same : given → copy = tree) (muted : copy.muted = tree.muted) {first second : Input}
    (beside : Beside spelling first second) :
    Reads (Chain spelling given close) (Parser.readOperators options close tree first)
      (Parser.readOperators others close copy second) := by
  have gap := skip_pauses abreast close.isNone beside
  have clear := gap_clear abreast close.isNone first
  have shorter := Gap.size_skip_le options close.isNone first
  have ended : Reads (Chain spelling given close) (finish close tree (Gap.reaches_skip options close.isNone first))
      (finish close copy (Gap.reaches_skip others close.isNone second)) := by
    cases close with
    | none =>
      exact .ok ⟨⟨(Leads.of_clear gap.beside clear).mono fun _ => same, muted⟩, nofun⟩
    | some mark => exact .error rfl
  cases goesOn : (Gap.skip options close.isNone first).2 with
  | false =>
    rw [readOperators_ended tree (.inl goesOn), readOperators_ended copy (.inl (gap.same.trans goesOn))]
    exact ended
  | true =>
    have follows := gap.same.trans goesOn
    have marked : (close.any fun mark => (Gap.skip others close.isNone second).1.isAt mark) =
        close.any fun mark => (Gap.skip options close.isNone first).1.isAt mark := by
      cases close with
      | none => rfl
      | some mark => exact gap.beside.isAt (marks mark rfl).1
    cases closed : close.any fun mark => (Gap.skip options close.isNone first).1.isAt mark with
    | true =>
      rw [readOperators_closed tree goesOn closed, readOperators_closed copy follows (marked.trans closed)]
      refine .ok ⟨⟨(Leads.of_clear gap.beside clear).mono fun _ => same, muted⟩, ?_⟩
      rintro mark rfl
      exact closed
    | false =>
      have opened := marked.trans closed
      have reads := read_gives abreast close.isSome gap.beside
      cases found : OperatorReading.read options close.isSome (Gap.skip options close.isNone first).1 with
      | error error =>
        rw [found] at reads
        generalize sought : OperatorReading.read others close.isSome _ = result at reads
        cases reads with
        | error same =>
          rw [readOperators_failed tree goesOn closed found, readOperators_failed copy follows opened sought]
          exact .error same
      | ok result =>
        rw [found] at reads
        generalize sought : OperatorReading.read others close.isSome _ = result at reads
        cases reads with
        | ok related =>
          cases related with
          | none =>
            rw [readOperators_ended tree (.inr ⟨closed, found⟩), readOperators_ended copy (.inr ⟨opened, sought⟩)]
            exact ended
          | @some x y gives =>
            obtain ⟨op, next⟩ := x
            obtain ⟨twin, follow⟩ := y
            obtain ⟨alike, after, passed⟩ := gives
            obtain rfl : twin = op := alike
            have later := (OperatorReading.passes_of_read found).2
            obtain ⟨reached, one⟩ := readOperators_applied tree goesOn closed found
            obtain ⟨follows, two⟩ := readOperators_applied copy follows opened sought
            rw [one, two]
            have applied : Reads (Twin spelling given) _ _ := readApplied_reads abreast twin same muted after
            refine .bind applied fun x y applied => ?_
            have := x.le
            have rest : Reads (Chain spelling (y.value = x.value) close) _ _ :=
              readOperators_reads abreast close marks id applied.muted applied.leads.beside
            refine .map rest fun z w chain => ⟨⟨?_, chain.twin.muted⟩, chain.closed⟩
            refine ((applied.leads.trans chain.twin.leads).after (clear.trans passed)).mono fun both given => ?_
            exact both.2 (both.1 given)
termination_by 8 * first.size + 2
decreasing_by all_goals omega

theorem readApplied_reads (abreast : Abreast spelling options others) {given : Prop} (op : Op) {tree copy : Expr}
    (same : given → copy = tree) (muted : copy.muted = tree.muted) {first second : Input}
    (beside : Beside spelling first second) :
    Reads (Twin spelling given) (Parser.readApplied options tree op first)
      (Parser.readApplied others copy op second) := by
  have inserted (op : Op) {one two right other : Expr} (left : two.muted = one.muted)
      (muted : other.muted = right.muted) :
      (two.insert op (some other)).muted = (one.insert op (some right)).muted := by
    rw [Expr.muted_insert, Expr.muted_insert, left, Option.map_some, Option.map_some, muted]
  rw [Parser.readApplied, Parser.readApplied]
  split
  · refine .ok ⟨(Leads.refl beside).mono fun _ given => ?_, ?_⟩
    · exact congrArg (Expr.insert op none) (same given)
    · change (copy.insert op none).muted = (tree.insert op none).muted
      rw [Expr.muted_insert, Expr.muted_insert, muted]
  · split
    · have operand : Reads (Twin spelling given) _ _ := readOperand_reads abreast op beside
      refine .bind operand fun x y right => .ok ⟨right.leads.mono fun alike given => ?_, ?_⟩
      · change copy.insert op (some y.value) = tree.insert op (some x.value)
        rw [same given, alike given]
      · exact inserted op muted right.muted
    · rename_i enclosure _
      have group : Reads (Twin spelling given) _ _ := readGroup_reads abreast enclosure beside
      refine .bind group fun x y right => ?_
      have shorter := x.le
      have applied := inserted op muted right.muted
      split
      · have operand : Reads (Twin spelling given) _ _ := readOperand_reads abreast .alternative right.leads.beside
        refine .bind operand fun z w otherwise => .ok ⟨?_, inserted .alternative applied otherwise.muted⟩
        refine (right.leads.trans otherwise.leads).mono fun both given => ?_
        change (copy.insert op (some y.value)).insert .alternative (some w.value) =
          (tree.insert op (some x.value)).insert .alternative (some z.value)
        rw [same given, both.1 given, both.2 given]
      · refine .ok ⟨right.leads.mono fun alike given => ?_, applied⟩
        change copy.insert op (some y.value) = tree.insert op (some x.value)
        rw [same given, alike given]
termination_by 8 * first.size + 4
decreasing_by all_goals omega

end

theorem readExpr_reads (abreast : Abreast spelling options others) (beside : Beside spelling first second) :
    Reads (Twin spelling True) (Parser.readExpr options first) (Parser.readExpr others second) := by
  have operand : Reads (Twin spelling True) _ _ := readOperand_reads abreast .group beside
  refine .bind operand fun x y first => ?_
  have rest : Reads (Chain spelling (y.value = x.value) none) _ _ :=
    readOperators_reads abreast none nofun id first.muted first.leads.beside
  refine .bind rest fun z w chain => .ok ⟨?_, chain.twin.muted⟩
  exact (first.leads.trans chain.twin.leads).mono fun both _ => both.2 (both.1 trivial)

end

end Respelling

end HtmlTemplate
