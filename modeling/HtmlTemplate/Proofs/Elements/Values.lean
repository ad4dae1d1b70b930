import HtmlTemplate.Eval.Basic
import HtmlTemplate.Proofs.Elements.Brackets
import HtmlTemplate.Proofs.Precedence.Row
import HtmlTemplate.Proofs.Rules.Basic

/-! Arrays and calls of functions keep their elements. However an element is written, with brackets of its own or
without, it is one element of the row it stands in, and evaluating the row evaluates each of them once. -/

namespace HtmlTemplate

namespace Eval

theorem evalItems_eq (mode : EvalMode) (items : List Expr) :
    evalItems mode items = items.mapM fun item => eval mode item >>= valueOf := by
  induction items with
  | nil => rw [evalItems, List.mapM_nil]
  | cons item items step => rw [evalItems, List.mapM_cons, step, bind_assoc]

end Eval

namespace Elements

open Reading

variable {options : ParseOptions}

/-- The values of elements, from left to right. -/
def values (mode : EvalMode) (elements : List (Element options)) : EvalM (List Value) :=
  elements.mapM fun element => Eval.eval mode element.tree >>= Eval.valueOf

def arrayText (elements : List (Element options)) : List Char := '[' :: (inner elements ++ [']'])

theorem single_trees (elements : List (Element options)) : ∀ tree ∈ elements.map (·.tree), tree.Single := by
  intro tree member
  obtain ⟨element, -, rfl⟩ := List.mem_map.mp member
  exact element.single

theorem evalItems_container (mode : EvalMode) (bracket : Bracket) (elements : List (Element options)) :
    Eval.evalItems mode (Expr.container bracket (elements.map (·.tree))).items = values mode elements := by
  rw [Expr.items_container bracket (single_trees elements), Eval.evalItems_eq, List.mapM_map]
  rfl

theorem eval_array (mode : EvalMode) (elements : List (Element options)) :
    Eval.eval mode (Expr.container .square (elements.map (·.tree))) =
      do return .owned (.array (← values mode.operand elements)) := by
  have items := evalItems_container mode.operand .square elements
  cases elements with
  | nil =>
    change Eval.eval mode .emptyArray = _
    rw [Eval.eval]
    rfl
  | cons first elements =>
    rw [List.map_cons, Expr.container, Eval.eval]
    rw [List.map_cons, Expr.container] at items
    rw [items]

theorem length_values {mode : EvalMode} {elements : List (Element options)} {context after : Context}
    {found : List Value} (evaluated : values mode elements context = (.ok found, after)) :
    found.length = elements.length := by
  induction elements generalizing context found with
  | nil =>
    cases evaluated
    rfl
  | cons element elements step =>
    rw [values, List.mapM_cons] at evaluated
    obtain ⟨value, middle, -, evaluated⟩ := Rules.bind_ok evaluated
    obtain ⟨rest, last, more, done⟩ := Rules.bind_ok evaluated
    cases done
    exact congrArg (· + 1) (step more)

/-! Arrays. -/

section

variable (commas : options.operators.contains .comma = true) (elements : List (Element options))
include commas

theorem finds_array :
    Finds (Parser.readOperand options .group) (arrayText elements) (Expr.container .square (elements.map (·.tree)))
      [] := by
  intro input eq
  have visible : Visible (arrayText elements) := rfl
  obtain ⟨gapRest, goesOn⟩ := skip_visible options visible false (.inl eq)
  have begins : (Gap.skip options false input).1.rest = '[' :: (inner elements ++ [']']) := gapRest
  have after : (Gap.skip options false input).1.advance.rest = inner elements ++ [']'] := by
    rw [rest_advance, begins, List.tail_cons]
  obtain ⟨parsed, success, value, left⟩ := finds_group commas (by decide : Bracket.square ≠ .curly) elements [] _ after
  have opens : Enclosure.ofOpening? '[' = some (.bracket .square) := rfl
  have led : Parser.readLed options .group (Gap.skip options false input).1 =
      .ok (parsed.widen (Input.reaches_advance _)) := by
    rw [readLed_group begins (by decide) (not_declared begins (by decide)) .group opens, success]
    rfl
  rw [Parser.readOperand]
  simp only [goesOn, Bool.not_true, Bool.false_eq_true, if_false, reduceCtorEq, or_self, led]
  exact ⟨_, rfl, value, left⟩

theorem parse_array :
    Expr.parseAll options (arrayText elements) = .ok (Expr.container .square (elements.map (·.tree))) :=
  parseAll_of_finds (finds_array commas elements) (finds_end options _)

end

/-! Calls. -/

/-- A word that is read as a name, also in front of a bracket. -/
structure Callee extends Precedence.Word where
  start : ∀ char ∈ chars.head?, CharClass.isDigit char = false
  plain : Literal.wordExpr (String.ofList chars) = .name (String.ofList chars)

namespace Callee

variable (callee : Callee)

def name : String := String.ofList callee.chars

theorem readWord_eq {input : Input} {more : List Char} (eq : input.rest = callee.chars ++ '(' :: more) :
    (Literal.readWord input).value = callee.name ∧ (Literal.readWord input).rest.rest = '(' :: more := by
  have outside : ∀ char ∈ ('(' :: more).head?, CharClass.isIdent char = false := by
    rintro _ ⟨⟩
    rfl
  constructor
  · change String.ofList (input.rest.takeWhile _) = _
    rw [eq, takeWhile_append callee.named outside]
    rfl
  · change (input.dropWhile _).rest = _
    rw [Input.rest_dropWhile, eq, dropWhile_append callee.named outside]

/-- A bracket right after it keeps a name from declaring. -/
theorem undeclared {input : Input} {more : List Char} (eq : input.rest = callee.chars ++ '(' :: more) :
    (input.startsWith ['v', 'a', 'r'] && input.isClassAt CharClass.isSpacing 3) = false := by
  by_contra declared
  simp only [Bool.not_eq_false, Bool.and_eq_true] at declared
  obtain ⟨starts, spacing⟩ := declared
  obtain ⟨rest, text⟩ := List.isPrefixOf_iff_prefix.mp starts
  rw [isClassAt_eq, ← text] at spacing
  cases rest with
  | nil => cases spacing
  | cons char rest =>
    have spacing : CharClass.isSpacing char = true := spacing
    have outside : CharClass.isIdent char = false := by
      simp only [CharClass.isSpacing, Bool.or_eq_true, beq_iff_eq] at spacing
      rcases spacing with rfl | rfl <;> rfl
    -- What follows the name is the bracket, and what follows the word for declarations is the spacing.
    have after := (callee.readWord_eq eq).2
    change (input.dropWhile _).rest = _ at after
    rw [Input.rest_dropWhile, ← text] at after
    simp [List.dropWhile, outside, show CharClass.isIdent 'v' = true from rfl,
      show CharClass.isIdent 'a' = true from rfl, show CharClass.isIdent 'r' = true from rfl] at after
    obtain ⟨rfl, -⟩ := after
    cases spacing

theorem name_ne : callee.name ≠ "" := by
  intro eq
  apply callee.nonempty
  simpa [name] using congrArg String.toList eq

theorem finds (more : List Char) :
    Finds (Parser.readOperand options .group) (callee.chars ++ '(' :: more) (.name callee.name) ('(' :: more) := by
  intro input eq
  obtain ⟨char, word, chars⟩ := List.exists_cons_of_ne_nil callee.nonempty
  have named : CharClass.isIdent char = true := callee.named char (by rw [chars]; exact List.mem_cons_self ..)
  have digit : CharClass.isDigit char = false := callee.start char (by rw [chars]; rfl)
  have visible : Visible (callee.chars ++ '(' :: more) := by
    rw [chars]
    exact not_isWhitespace named
  obtain ⟨gapRest, goesOn⟩ := skip_visible options visible false (.inl eq)
  obtain ⟨plain, quote, mark, opening⟩ := plain_of_isIdent named
  have begins : (Gap.skip options false input).1.rest = char :: (word ++ '(' :: more) := by rw [gapRest, chars]; rfl
  obtain ⟨value, after⟩ := callee.readWord_eq gapRest
  have led : Parser.readLed options .group (Gap.skip options false input).1 =
      .ok ((Literal.readWord (Gap.skip options false input).1).map Literal.wordExpr) := by
    rw [readLed_plain begins plain (callee.undeclared gapRest) .group opening, Parser.readValue]
    simp [begins, quote, mark, digit, value, callee.name_ne]
  rw [Parser.readOperand]
  simp only [goesOn, Bool.not_true, Bool.false_eq_true, if_false, reduceCtorEq, or_self, led]
  refine ⟨_, rfl, ?_, after⟩
  change Literal.wordExpr (Literal.readWord (Gap.skip options false input).1).value = _
  rw [value]
  exact callee.plain

end Callee

def callText (callee : Callee) (elements : List (Element options)) : List Char :=
  callee.chars ++ '(' :: (inner elements ++ [')'])

theorem read_call (calls : options.operators.contains .call = true) {input : Input} {text : List Char}
    (begins : input.rest = '(' :: text) :
    OperatorReading.read options false input = .ok (some (.call, input.advance)) := by
  rw [OperatorReading.read, readSymbol_none begins (by decide), begins]
  simp [OperatorReading.opening?, OperatorReading.check, calls, Except.map]

section

variable (commas : options.operators.contains .comma = true) (calls : options.operators.contains .call = true)
  (elements : List (Element options))
include commas calls

theorem finds_called (name : String) :
    Finds (Parser.readOperators options none (.name name)) ('(' :: (inner elements ++ [')']))
      (.binary .call (.name name) (Expr.container .round (elements.map (·.tree)))) [] := by
  intro input eq
  have visible : Visible ('(' :: (inner elements ++ [')'])) := rfl
  obtain ⟨gapRest, goesOn⟩ := skip_visible options visible true (.inl eq)
  have found := read_call calls gapRest
  have after : (Gap.skip options true input).1.advance.rest = inner elements ++ [')'] := by
    rw [rest_advance, gapRest, List.tail_cons]
  obtain ⟨arguments, success, value, left⟩ := finds_group commas (by decide : Bracket.round ≠ .curly) elements [] _ after
  obtain ⟨final, ended, last, nothing⟩ := finds_end options
    (.binary .call (.name name) (Expr.container .round (elements.map (·.tree)))) arguments.rest left
  have applied : Parser.readApplied options (.name name) .call (Gap.skip options true input).1.advance =
      .ok ⟨.binary .call (.name name) (Expr.container .round (elements.map (·.tree))), arguments.rest,
        arguments.reached⟩ := by
    rw [Parser.readApplied]
    simp only [Op.isTrailing, Bool.false_eq_true, if_false, Enclosure.ofOp?, success, bind, Except.bind, reduceCtorEq,
      value]
    rfl
  obtain ⟨reached, read⟩ := @readOperators_applied options none input (.name name) goesOn rfl _ _ found
  rw [read, applied]
  refine ⟨final.widen (reached ⟨_, arguments.rest, arguments.reached⟩), ?_, last, nothing⟩
  change (Parser.readOperators options none _ arguments.rest).map _ = _
  rw [ended]
  rfl

theorem parse_call (callee : Callee) : Expr.parseAll options (callText callee elements) =
    .ok (.binary .call (.name callee.name) (Expr.container .round (elements.map (·.tree)))) :=
  parseAll_of_finds (callee.finds _) (finds_called commas calls elements callee.name)

end

/-- A name stands for a function of the host. -/
def Calls (context : Context) (name : String) (function : HostFunction) : Prop :=
  ∃ frame, context.find? name = some frame ∧ context.binding? frame name = some (.function function)

theorem eval_call (mode : EvalMode) (elements : List (Element options)) {context : Context} {name : String}
    {function : HostFunction} (bound : Calls context name function) :
    Eval.eval mode (.binary .call (.name name) (Expr.container .round (elements.map (·.tree)))) context =
      (do Eval.call (.function function none) (← values mode.operand elements)) context := by
  obtain ⟨frame, found, binding⟩ := bound
  have named : Eval.eval mode.operand (.name name) context = (.ok (.function function none), context) := by
    rw [Eval.eval, Eval.lookupName_eq, found, Option.elim_some, binding, Eval.meaning]
  rw [Eval.eval, Rules.bind_eq, named]
  dsimp only
  rw [evalItems_container]

/-- Brackets keep their elements. For any elements, what is written as an array of them is read as one expression,
which evaluates to the array of their values, each evaluated once and from left to right; and what is written as a
call with them calls the function that the name stands for with these values. There are as many values as elements. -/
theorem elements_kept {options : ParseOptions} (commas : options.operators.contains .comma = true)
    (calls : options.operators.contains .call = true) (elements : List (Element options)) :
    (∃ tree, Expr.parseAll options (arrayText elements) = .ok tree ∧
      ∀ mode, Eval.eval mode tree = do return .owned (.array (← values mode.operand elements))) ∧
    (∀ callee : Callee, ∃ tree, Expr.parseAll options (callText callee elements) = .ok tree ∧
      ∀ mode context function, Calls context callee.name function →
        Eval.eval mode tree context =
          (do Eval.call (.function function none) (← values mode.operand elements)) context) ∧
    ∀ mode context found after, values mode elements context = (.ok found, after) →
      found.length = elements.length :=
  ⟨⟨_, parse_array commas elements, fun mode => eval_array mode elements⟩,
    fun callee => ⟨_, parse_call commas calls elements callee, fun mode _ _ bound => eval_call mode elements bound⟩,
    fun _ _ _ _ evaluated => length_values evaluated⟩

/-- Elements with brackets of their own, with a comma in brackets and with the marks of a ternary. -/
def samples : List (Element .script) :=
  ["(1, 2)", "[]", "[[]]", "true ? 3 : 4", "list(5, [6])"].filterMap fun text => Element.ofText? .script text.toList

def list : HostFunction := fun _ arguments => .ok (.array arguments)

def hosted : Context := Context.new.setFunction "list" list

def listing : Callee where
  chars := "list".toList
  nonempty := by decide
  named := List.all_eq_true.mp rfl
  start := by
    rintro _ ⟨⟩
    rfl
  plain := rfl

theorem samples_kept :
    ParseOptions.script.operators.contains .comma = true ∧ ParseOptions.script.operators.contains .call = true ∧
      arrayText samples = "[(1, 2), [], [[]], true ? 3 : 4, list(5, [6])]".toList ∧
      callText listing samples = "list((1, 2), [], [[]], true ? 3 : 4, list(5, [6]))".toList ∧
      ((values EvalMode.strict.operand samples hosted).1.toOption.map fun found => (Value.array found).toJson) =
        some "[\"12\",[],[[]],3,[5,[6]]]" ∧
      (∃ tree, Expr.parseAll .script (arrayText samples) = .ok tree ∧
        Eval.eval .strict tree hosted =
          (do return Handle.owned (.array (← values EvalMode.strict.operand samples))) hosted) ∧
      ∃ tree, Expr.parseAll .script (callText listing samples) = .ok tree ∧
        Eval.eval .strict tree hosted =
          (do Eval.call (.function list none) (← values EvalMode.strict.operand samples)) hosted := by
  obtain ⟨⟨array, read, evaluated⟩, called, -⟩ := elements_kept rfl rfl samples
  obtain ⟨call, parsed, calls⟩ := called listing
  refine ⟨rfl, rfl, by decide +kernel, by decide +kernel, by decide +kernel, ⟨array, read, ?_⟩, call, parsed, ?_⟩
  · rw [evaluated]
  · exact calls .strict hosted list ⟨0, rfl, rfl⟩

end Elements

end HtmlTemplate
