import Mathlib.Tactic.FinCases
import HtmlTemplate.Expr.Parser

/-! What a reader finds in a text. Readers look at the text before them alone, so their place in
the source is left open. -/

namespace HtmlTemplate

namespace Input

theorem textFrom_append (pos : Nat) (read rest : List Char) :
    textFrom pos (pos + byteLength read) (read ++ rest) = read := by
  induction read generalizing pos with
  | nil => cases rest <;> simp [textFrom, byteLength]
  | cons char read step =>
    have wide : 0 < char.utf8Size := Char.utf8Size_pos char
    rw [List.cons_append, textFrom, byteLength, if_pos (by omega), ← Nat.add_assoc, step]

/-- The text up to a place that is reached. -/
theorem textTo_of_reaches {start stop : Input} {read : List Char} (rest : start.rest = read ++ stop.rest)
    (reached : start.Reaches stop) : start.textTo stop.pos = read := by
  obtain ⟨other, same, pos⟩ := reached
  obtain rfl : other = read := List.append_cancel_right (same.symm.trans rest)
  rw [textTo, rest, pos]
  exact textFrom_append start.pos other stop.rest

theorem textTo_dropWhile (class? : Char → Bool) (input : Input) :
    input.textTo (input.dropWhile class?).pos = input.takeWhile class? := by
  refine textTo_of_reaches ?_ (reaches_dropWhile class? input)
  rw [rest_dropWhile]
  exact List.takeWhile_append_dropWhile.symm

end Input

namespace Reading

/-- On every input with the text, a reader succeeds with the value and leaves the rest. -/
def Finds {α : Type} (reader : (input : Input) → Except ParseError (Parsed α input))
    (text : List Char) (value : α) (rest : List Char) : Prop :=
  ∀ input, input.rest = text →
    ∃ parsed, reader input = .ok parsed ∧ parsed.value = value ∧ parsed.rest.rest = rest

/-- A sequence succeeds if both parts of it do. -/
theorem bind_eq_ok {ε α β : Type} {first : Except ε α} {next : α → Except ε β} {value : β} :
    first >>= next = .ok value ↔ ∃ part, first = .ok part ∧ next part = .ok value := by
  constructor
  · intro read
    cases first with
    | error error => cases read
    | ok part => exact ⟨part, rfl, read⟩
  · rintro ⟨part, rfl, read⟩
    exact read

theorem map_eq_ok {ε α β : Type} {program : Except ε α} {change : α → β} {value : β} :
    program.map change = .ok value ↔ ∃ part, program = .ok part ∧ change part = value := by
  cases program with
  | error error => exact ⟨nofun, nofun⟩
  | ok part => exact ⟨fun read => ⟨part, rfl, Except.ok.inj read⟩, fun ⟨_, same, read⟩ => by cases same; exact congrArg _ read⟩

/-- The first find among some items, if each of them is found by both of two ways or by none. -/
theorem findSome_rel {α β γ : Type} {related : β → γ → Prop} {find : α → Option β} {seek : α → Option γ}
    (items : List α) (each : ∀ item ∈ items, Option.Rel related (find item) (seek item)) :
    Option.Rel related (items.findSome? find) (items.findSome? seek) := by
  induction items with
  | nil => exact .none
  | cons item items step =>
    obtain ⟨first, rest⟩ := List.forall_mem_cons.mp each
    rw [List.findSome?_cons, List.findSome?_cons]
    generalize find item = found at first
    generalize seek item = sought at first
    cases first with
    | none => exact step rest
    | some related => exact .some related

/-! Characters and runs of them. -/

theorem isClass_eq {input : Input} {char : Char} {text : List Char}
    (rest : input.rest = char :: text) (class? : Char → Bool) :
    input.isClass class? = class? char := by
  simp only [Input.isClass, rest]

theorem isClassAt_eq {class? : Char → Bool} {ahead : Nat} {input : Input} :
    input.isClassAt class? ahead = (input.rest[ahead]?).any class? := rfl

theorem rest_advance (input : Input) : input.advance.rest = input.rest.tail := by
  obtain ⟨pos, _ | ⟨char, rest⟩⟩ := input <;> rfl

theorem rest_advanceBy (count : Nat) (input : Input) :
    (input.advanceBy count).rest = input.rest.drop count := by
  induction count generalizing input with
  | zero => rfl
  | succ count step => rw [Input.advanceBy, step, rest_advance, List.drop_tail]

theorem intercalate_cons {α : Type} (separator first : List α) (rest : List (List α)) :
    separator.intercalate (first :: rest) = first ++ rest.flatMap (separator ++ ·) := by
  induction rest generalizing first with
  | nil => simp
  | cons second rest step =>
    rw [List.intercalate_cons_cons, step, List.flatMap_cons, List.append_assoc separator, List.append_assoc first]

theorem takeWhile_append {class? : Char → Bool} {run after : List Char}
    (inside : ∀ char ∈ run, class? char = true) (outside : ∀ char ∈ after.head?, class? char = false) :
    (run ++ after).takeWhile class? = run := by
  rw [List.takeWhile_append_of_pos inside]
  cases after with
  | nil => simp
  | cons char after => simp [outside char rfl]

theorem dropWhile_append {class? : Char → Bool} {run after : List Char}
    (inside : ∀ char ∈ run, class? char = true) (outside : ∀ char ∈ after.head?, class? char = false) :
    (run ++ after).dropWhile class? = after := by
  rw [List.dropWhile_append_of_pos inside]
  cases after with
  | nil => rfl
  | cons char after => simp [outside char rfl]

/-! Spaces. -/

/-- A text that begins with something other than white space. -/
def Visible : List Char → Prop
  | [] => False
  | char :: _ => CharClass.isWhitespace char = false

namespace Visible

theorem append {text : List Char} (visible : Visible text) (more : List Char) :
    Visible (text ++ more) := by
  cases text with
  | nil => exact visible.elim
  | cons char text => exact visible

theorem ne_nil {text : List Char} (visible : Visible text) : text ≠ [] := by
  rintro rfl
  exact visible

end Visible

theorem not_isSpacing {char : Char} (visible : CharClass.isWhitespace char = false) :
    CharClass.isSpacing char = false := by
  simp only [CharClass.isWhitespace, Bool.or_eq_false_iff] at visible
  exact visible.1

theorem not_isLineEnd {char : Char} (visible : CharClass.isWhitespace char = false) :
    CharClass.isLineEnd char = false := by
  simp only [CharClass.isWhitespace, Bool.or_eq_false_iff] at visible
  exact visible.2

/-- At the end of a line: what follows blank lines, or what follows the continuation. -/
theorem skipContinued_eq (continuation : List Char) (complete : Bool) (lineEnd : Option Input) (input : Input) :
    Gap.skipContinued continuation complete lineEnd input =
      if input.skipSpacing.isClass CharClass.isLineEnd then
        let stop := lineEnd.getD input.skipSpacing
        match Gap.blankLine? input.skipSpacing with
        | none =>
          if complete ∨ continuation = [] then (stop, false)
          else match input.skipSpacing.eatWord? continuation with
            | none => (stop, false)
            | some next => Gap.skipContinued continuation complete none next
        | some next => Gap.skipContinued continuation complete (some stop) next
      else (input.skipSpacing, !input.skipSpacing.atEnd) := by
  rw [Gap.skipContinued.eq_def]
  dsimp only
  split
  · split
    · rename_i found
      rw [found]
    · rename_i found
      rw [found]
      dsimp only
      split
      · rfl
      · split
        · rename_i eaten
          rw [eaten]
        · rename_i eaten
          rw [eaten]
  · rfl

/-- The gap before a visible part is skipped, whether or not there is a space in it. -/
theorem skip_visible (options : ParseOptions) {text : List Char} (visible : Visible text) (complete : Bool)
    {input : Input} (rest : input.rest = text ∨ input.rest = ' ' :: text) :
    (Gap.skip options complete input).1.rest = text ∧
      (Gap.skip options complete input).2 = true := by
  obtain ⟨char, more, rfl⟩ := List.exists_cons_of_ne_nil visible.ne_nil
  have blank : CharClass.isWhitespace char = false := visible
  have spacing : (input.skipSpacing).rest = char :: more := by
    rw [Input.skipSpacing, Input.rest_dropWhile]
    rcases rest with rest | rest <;> rw [rest] <;>
      simp [not_isSpacing blank, show CharClass.isSpacing ' ' = true from rfl]
  have whitespace : (input.skipWhitespace).rest = char :: more := by
    rw [Input.skipWhitespace, Input.rest_dropWhile]
    rcases rest with rest | rest <;> rw [rest] <;>
      simp [blank, show CharClass.isWhitespace ' ' = true from rfl]
  have lineEnd : input.skipSpacing.isClass CharClass.isLineEnd = false := by
    rw [isClass_eq spacing, not_isLineEnd blank]
  unfold Gap.skip
  split
  · simp [skipContinued_eq, lineEnd, spacing, Input.atEnd]
  · by_cases line : options.stops.line = true <;> simp [line, lineEnd, spacing, whitespace, Input.atEnd]

theorem skip_end (options : ParseOptions) (complete : Bool) {input : Input} (rest : input.rest = []) :
    (Gap.skip options complete input).1.rest = [] ∧
      (Gap.skip options complete input).2 = false := by
  obtain ⟨pos, text⟩ := input
  obtain rfl : text = [] := rest
  unfold Gap.skip
  split
  · simp [skipContinued_eq, Input.skipSpacing, Input.dropWhile, Input.dropFrom, Input.isClass, Input.atEnd]
  · by_cases line : options.stops.line = true <;>
      simp [line, Input.skipSpacing, Input.skipWhitespace, Input.dropWhile, Input.dropFrom, Input.isClass,
        Input.atEnd]

/-! Values without marks in front of them. -/

/-- How the operators in front of an operand begin, but for the declaration. -/
def leaders : List Char := ['!', '-', '~', '+']

theorem plain_of_isIdent {char : Char} (named : CharClass.isIdent char = true) :
    char ∉ leaders ∧ char ≠ '"' ∧ char ≠ '\'' ∧ Enclosure.ofOpening? char = none := by
  have marks : ∀ mark ∈ leaders ++ ['"', '\'', '(', '[', '{'], char ≠ mark := by
    rintro mark member rfl
    fin_cases member <;> cases named
  refine ⟨fun leads => marks char (List.mem_append_left _ leads) rfl, marks _ (by decide),
    marks _ (by decide), ?_⟩
  simp [Enclosure.ofOpening?, marks '(' (by decide), marks '[' (by decide), marks '{' (by decide)]

theorem not_isWhitespace {char : Char} (named : CharClass.isIdent char = true) :
    CharClass.isWhitespace char = false := by
  by_contra blank
  simp only [Bool.not_eq_false, CharClass.isWhitespace, CharClass.isSpacing, CharClass.isLineEnd,
    Bool.or_eq_true, beq_iff_eq] at blank
  rcases blank with (rfl | rfl) | (rfl | rfl) <;> cases named

theorem isIdent_of_isDigit {char : Char} (digit : CharClass.isDigit char = true) :
    CharClass.isIdent char = true := by
  simp [CharClass.isIdent, CharClass.isAlphanumeric, digit]

theorem not_declared {input : Input} {char : Char} {text : List Char}
    (rest : input.rest = char :: text) (other : char ≠ 'v') :
    (input.startsWith ['v', 'a', 'r'] && input.isClassAt CharClass.isSpacing 3) = false := by
  simp [Input.startsWith, rest, List.isPrefixOf, Ne.symm other]

section

variable {options : ParseOptions} {input : Input} {char : Char} {text : List Char}
  (rest : input.rest = char :: text) (plain : char ∉ leaders)
  (noDeclaration :
    (input.startsWith ['v', 'a', 'r'] && input.isClassAt CharClass.isSpacing 3) = false)
include rest plain noDeclaration

theorem readLeading_plain : OperatorReading.readLeading options input = .ok none := by
  have other : ∀ mark ∈ leaders, char ≠ mark := by
    rintro mark member rfl
    exact plain member
  have at? : ∀ mark ∈ leaders, input.isAt mark = false := by
    intro mark member
    simp [Input.isAt, isClass_eq rest, other mark member]
  have starts : ∀ mark ∈ leaders, input.startsWith [mark, mark] = false := by
    intro mark member
    simp [Input.startsWith, rest, List.isPrefixOf, (other mark member).symm]
  simp [OperatorReading.readLeading, noDeclaration, starts '+' (by decide),
    starts '-' (by decide), at? '!' (by decide), at? '-' (by decide), at? '~' (by decide),
    at? '+' (by decide)]

/-- Without a leading operator and brackets, an operand is a value. -/
theorem readLed_plain (op : Op) (opening : Enclosure.ofOpening? char = none) :
    Parser.readLed options op input = Parser.readValue op input := by
  have leading : OperatorReading.readLeading options input = .ok none :=
    readLeading_plain rest plain noDeclaration
  rw [Parser.readLed]
  split
  · rename_i error found
    rw [leading] at found
    cases found
  · rename_i found
    rw [leading] at found
    cases found
  · split
    · rfl
    · rename_i other more eq
      obtain ⟨rfl, rfl⟩ : char = other ∧ text = more := by
        rw [rest] at eq
        exact List.cons.inj eq
      rw [opening]

/-- Brackets are read as the group that they enclose. -/
theorem readLed_group (op : Op) {enclosure : Enclosure}
    (opening : Enclosure.ofOpening? char = some enclosure) :
    Parser.readLed options op input =
      (Parser.readGroup options enclosure input.advance).map
        (.widen (Input.reaches_advance input)) := by
  have leading : OperatorReading.readLeading options input = .ok none :=
    readLeading_plain rest plain noDeclaration
  rw [Parser.readLed]
  split
  · rename_i error found
    rw [leading] at found
    cases found
  · rename_i found
    rw [leading] at found
    cases found
  · split
    · rename_i eq
      rw [rest] at eq
      cases eq
    · rename_i other more eq
      obtain ⟨rfl, rfl⟩ : char = other ∧ text = more := by
        rw [rest] at eq
        exact List.cons.inj eq
      rw [opening]
      rfl

end

/-! Calls without arguments. -/

theorem readLed_noArguments (options : ParseOptions) {input : Input} {text : List Char}
    (rest : input.rest = ')' :: text) : Parser.readLed options .call input = .ok (.here input .noArguments) := by
  obtain ⟨pos, _⟩ := input
  subst rest
  rw [Parser.readLed]
  rfl

/-- Between the brackets of a call there may be nothing. -/
theorem finds_noArguments (options : ParseOptions) (text : List Char) :
    Finds (Parser.readOperand options .call) (')' :: text) .noArguments (')' :: text) := by
  intro input rest
  have visible : Visible (')' :: text) := rfl
  obtain ⟨gapRest, goesOn⟩ := skip_visible options visible false (.inl rest)
  rw [Parser.readOperand]
  simp only [goesOn, Bool.not_true, Bool.false_eq_true, if_false, reduceCtorEq, or_self,
    readLed_noArguments options gapRest]
  exact ⟨_, rfl, rfl, gapRest⟩

/-! Whole texts. -/

theorem finds_end (options : ParseOptions) (tree : Expr) :
    Finds (Parser.readOperators options none tree) [] tree [] := by
  intro input rest
  obtain ⟨gapRest, ended⟩ := skip_end options true rest
  refine ⟨⟨tree, (Gap.skip options true input).1, Gap.reaches_skip ..⟩, ?_, rfl, gapRest⟩
  rw [Parser.readOperators]
  simp only [Option.isNone_none, ended, Bool.not_false, if_true]

/-- A text is one expression if its first operand and what follows that are read up to the end. -/
theorem parseAll_of_finds {options : ParseOptions} {text middle : List Char} {first tree : Expr}
    (operand : Finds (Parser.readOperand options .group) text first middle)
    (operators : Finds (Parser.readOperators options none first) middle tree []) :
    Expr.parseAll options text = .ok tree := by
  obtain ⟨found, success, rfl, left⟩ := operand (.ofText text) rfl
  obtain ⟨parsed, finished, value, nothing⟩ := operators found.rest left
  simp only [Expr.parseAll, Expr.parse, Parser.readExpr, success, bind, Except.bind, finished]
  simp only [Parsed.widen, pure, Except.pure, nothing, List.all_nil, if_true, value]

/-! Numbers. -/

/-- Ends a run of digits: there is no digit at the start. -/
def Undigited (text : List Char) : Prop := ∀ char ∈ text.head?, CharClass.isDigit char = false

end Reading

/-! The steps of reading an operand with its leading operators and a row of operators. -/

/-- A tree of one node without brackets. -/
def Expr.IsLeaf : Expr → Prop
  | .name _ | .literal _ | .noArguments => True
  | _ => False

namespace Reading

theorem isLeaf_readName {input : Input} {parsed : Parsed Expr input} (read : Parser.readName input = .ok parsed) :
    parsed.value.IsLeaf := by
  unfold Parser.readName at read
  dsimp only at read
  split at read
  · cases read
  · cases read
    trivial

theorem isLeaf_wordExpr (word : String) : (Literal.wordExpr word).IsLeaf := by
  unfold Literal.wordExpr
  repeat' split
  all_goals trivial

theorem isLeaf_readValue {op : Op} {input : Input} {parsed : Parsed Expr input}
    (read : Parser.readValue op input = .ok parsed) : parsed.value.IsLeaf := by
  have nothing (read : Parser.readValue.nothing op input = .ok parsed) : parsed.value.IsLeaf := by
    unfold Parser.readValue.nothing at read
    split at read
    · cases read
      trivial
    · cases read
  unfold Parser.readValue at read
  split at read
  · exact nothing read
  · split at read
    · generalize Literal.readString input _ = result at read
      cases result with
      | error _ => cases read
      | ok _ =>
        cases read
        trivial
    · split at read
      · cases read
        trivial
      · dsimp only at read
        split at read
        · exact nothing read
        · cases read
          exact isLeaf_wordExpr _

/-- An operand after a leading operator. -/
theorem readLed_marked {options : ParseOptions} {input next : Input} {mark : Option Op}
    (found : OperatorReading.readLeading options input = .ok (some (mark, next))) (op : Op) :
    ∃ reached, Parser.readLed options op input =
      if !(Gap.skip options false next).2 then
        .error (.here .missingOperand (Gap.skip options false next).1.pos)
      else (Parser.readLed options op (Gap.skip options false next).1).map fun operand =>
        (operand.map (Parser.lead mark)).widen reached := by
  refine ⟨(OperatorReading.passes_of_readLeading found).1.trans (Gap.reaches_skip ..), ?_⟩
  rw [Parser.readLed]
  split
  · rename_i other
    cases found.symm.trans other
  · rename_i other
    cases found.symm.trans other
    dsimp only
    split
    · rfl
    · cases Parser.readLed options op (Gap.skip options false next).1 <;> rfl
  · rename_i other
    cases found.symm.trans other

theorem readLed_failed {options : ParseOptions} {input : Input} {error : ParseError}
    (found : OperatorReading.readLeading options input = .error error) (op : Op) :
    Parser.readLed options op input = .error error := by
  rw [Parser.readLed]
  split
  · rename_i other
    cases found.symm.trans other
    rfl
  · rename_i other
    cases found.symm.trans other
  · rename_i other
    cases found.symm.trans other

/-- An operand without leading operators. -/
theorem readLed_unmarked {options : ParseOptions} {input : Input}
    (found : OperatorReading.readLeading options input = .ok none) (op : Op) :
    Parser.readLed options op input =
      match input.rest with
      | [] => Parser.readValue op input
      | char :: _ =>
        match Enclosure.ofOpening? char with
        | none => Parser.readValue op input
        | some enclosure => (Parser.readGroup options enclosure input.advance).map
            (.widen (Input.reaches_advance input)) := by
  rw [Parser.readLed]
  split
  · rename_i other
    cases found.symm.trans other
  · rename_i other
    cases found.symm.trans other
  · split
    · rename_i start
      rw [start]
    · rename_i start
      rw [start]
      dsimp only
      split
      · rename_i opening
        rw [opening]
        dsimp only
        cases Parser.readGroup options _ input.advance <;> rfl
      · rename_i opening
        rw [opening]

/-- The end of a row, which has to be closed if a closing mark is still to come. -/
def finish {input stop : Input} (close : Option Char) (tree : Expr) (reached : input.Reaches stop) :
    Except ParseError (Parsed Expr input) :=
  match close with
  | none => .ok ⟨tree, stop, reached⟩
  | some mark => .error (.here (.unclosed mark) stop.pos)

section

variable {options : ParseOptions} {close : Option Char} {input : Input} (tree : Expr)

theorem readOperators_ended
    (ends : (Gap.skip options close.isNone input).2 = false ∨
      (close.any fun mark => (Gap.skip options close.isNone input).1.isAt mark) = false ∧
        OperatorReading.read options close.isSome (Gap.skip options close.isNone input).1 = .ok none) :
    Parser.readOperators options close tree input =
      finish close tree (Gap.reaches_skip options close.isNone input) := by
  rw [Parser.readOperators.eq_def]
  dsimp only
  rcases ends with ends | ⟨opened, found⟩
  · rw [ends]
    rfl
  · rw [opened]
    split
    · rfl
    · rw [if_neg Bool.false_ne_true]
      split
      · rename_i other
        cases found.symm.trans other
      · rfl
      · rename_i other
        cases found.symm.trans other

variable (goesOn : (Gap.skip options close.isNone input).2 = true)
include goesOn

theorem readOperators_closed
    (closed : (close.any fun mark => (Gap.skip options close.isNone input).1.isAt mark) = true) :
    Parser.readOperators options close tree input =
      .ok ⟨tree, (Gap.skip options close.isNone input).1, Gap.reaches_skip ..⟩ := by
  rw [Parser.readOperators.eq_def]
  dsimp only
  rw [goesOn, closed]
  rfl

variable (opened : (close.any fun mark => (Gap.skip options close.isNone input).1.isAt mark) = false)
include opened

theorem readOperators_failed {error : ParseError}
    (found : OperatorReading.read options close.isSome (Gap.skip options close.isNone input).1 = .error error) :
    Parser.readOperators options close tree input = .error error := by
  rw [Parser.readOperators.eq_def]
  dsimp only
  rw [goesOn, opened, if_neg (by decide), if_neg Bool.false_ne_true]
  split
  · rename_i other
    cases found.symm.trans other
    rfl
  · rename_i other
    cases found.symm.trans other
  · rename_i other
    cases found.symm.trans other

theorem readOperators_applied {op : Op} {next : Input}
    (found : OperatorReading.read options close.isSome (Gap.skip options close.isNone input).1 =
      .ok (some (op, next))) :
    ∃ reached : ∀ applied : Parsed Expr next, input.Reaches applied.rest,
      Parser.readOperators options close tree input =
        Parser.readApplied options tree op next >>= fun applied =>
          (Parser.readOperators options close applied.value applied.rest).map (.widen (reached applied)) := by
  refine ⟨fun applied => (Gap.reaches_skip ..).trans
    ((OperatorReading.passes_of_read found).1.trans applied.reached), ?_⟩
  rw [Parser.readOperators.eq_def]
  dsimp only
  rw [goesOn, opened, if_neg (by decide), if_neg Bool.false_ne_true]
  split
  · rename_i other
    cases found.symm.trans other
  · rename_i other
    cases found.symm.trans other
  · rename_i other
    cases found.symm.trans other
    refine congrArg _ (funext fun applied => ?_)
    cases Parser.readOperators options close applied.value applied.rest <;> rfl

end

end Reading

end HtmlTemplate
