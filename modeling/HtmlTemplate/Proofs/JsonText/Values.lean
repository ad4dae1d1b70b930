import Mathlib.Tactic.Choose
import HtmlTemplate.Eval.Reported
import HtmlTemplate.Proofs.JsonText.Rows
import HtmlTemplate.Proofs.Rules.Basic

/-! The JSON text of a value is an expression for the value: read as on a line of markup, it is a
constant, and wherever it is evaluated it has that value. -/

namespace HtmlTemplate.JsonText

open HtmlTemplate.Reading
open HtmlTemplate.Expr (container row)

/-- The values that JSON texts give back: there is no float in them, every integer stays in range
without its sign, and dictionaries are in the order of their keys. -/
inductive Plain : Value → Prop where
  | null : Plain .null
  | bool (flag : Bool) : Plain (.bool flag)
  | int {number : Int64} (above : Int64.minValue < number) : Plain (.int number)
  | text (content : String) : Plain (.text content)
  | array {items : List Value} (each : ∀ item ∈ items, Plain item) : Plain (.array items)
  | dict {entries : List (String × Value)} (ordered : (Entries.names entries).Pairwise (· < ·))
    (each : ∀ entry ∈ entries, Plain entry.2) : Plain (.dict entries)

/-! Evaluation. -/

/-- In every context, a computation gives the value and leaves the context as it is. -/
def Delivers {α : Type} (program : EvalM α) (value : α) : Prop :=
  ∀ context, program context = (.ok value, context)

namespace Delivers

variable {α β : Type}

theorem pure (value : α) : Delivers (Pure.pure value) value := fun _ => rfl

theorem bind {first : EvalM α} {next : α → EvalM β} {value : α} {final : β}
    (delivers : Delivers first value) (goesOn : Delivers (next value) final) :
    Delivers (first >>= next) final := by
  intro context
  rw [Rules.bind_eq, delivers context]
  exact goesOn context

theorem valueOf (value : Value) : Delivers (Eval.valueOf (.owned value)) value := fun _ => rfl

end Delivers

/-- A tree has the value wherever it is evaluated, whatever for. -/
def Yields (tree : Expr) (value : Value) : Prop :=
  ∀ mode, Delivers (Eval.eval mode tree) (.owned value)

theorem yields_literal (value : Value) : Yields (.literal value) value := by
  intro mode
  rw [Eval.eval]
  exact .pure _

theorem yields_negative (number : Int64) :
    Yields (.unary .negate (.literal (.int number))) (.int (-number)) := by
  intro mode
  rw [Eval.eval]
  exact .bind (yields_literal _ _) (.bind (.valueOf _) fun _ => rfl)

theorem evalItems_delivers {tree : Value → Expr} {items : List Value}
    (each : ∀ item ∈ items, Yields (tree item) item) (mode : EvalMode) :
    Delivers (Eval.evalItems mode (items.map tree)) items := by
  induction items with
  | nil =>
    rw [List.map_nil, Eval.evalItems]
    exact .pure _
  | cons item items step =>
    have rest := step fun other member => each other (List.mem_cons_of_mem _ member)
    rw [List.map_cons, Eval.evalItems]
    exact .bind (each item (List.mem_cons_self ..) mode)
      (.bind (.valueOf item) (.bind rest (.pure _)))

/-- A key after all others is put at the end. -/
theorem insert_last {α : Type} {name : String} {entries : List (String × α)}
    (before : ∀ other ∈ Entries.names entries, other < name) (value : α) :
    Entries.insert name value entries = entries ++ [(name, value)] := by
  induction entries with
  | nil => rfl
  | cons entry entries step =>
    obtain ⟨first, old⟩ := entry
    have less : first < name := before first (List.mem_cons_self ..)
    have different : first ≠ name := by
      rintro rfl
      exact String.lt_irrefl _ less
    have notLess : ¬name < first := String.lt_asymm less
    rw [Entries.insert, if_neg different, if_neg notLess,
      step fun other member => before other (List.mem_cons_of_mem _ member)]
    rfl

/-- The tree of an entry whose value has the tree that is given for it. -/
def entryTree (tree : String × Value → Expr) (entry : String × Value) : Expr :=
  .binary .colon (.literal (.text entry.1)) (tree entry)

theorem evalEntries_delivers {tree : String × Value → Expr} {entries : List (String × Value)}
    (each : ∀ entry ∈ entries, Yields (tree entry) entry.2) (mode : EvalMode)
    (before : List (String × Value))
    (ordered : (Entries.names (before ++ entries)).Pairwise (· < ·)) :
    Delivers (Eval.evalEntries mode before (entries.map (entryTree tree))) (before ++ entries) := by
  induction entries generalizing before with
  | nil =>
    rw [List.map_nil, Eval.evalEntries, List.append_nil]
    exact .pure _
  | cons entry entries step =>
    have last : ∀ other ∈ Entries.names before, other < entry.1 := by
      rw [Entries.names, List.map_append, List.pairwise_append] at ordered
      exact fun other member => ordered.2.2 other member entry.1 (List.mem_cons_self ..)
    rw [List.append_cons] at ordered ⊢
    have rest := step (fun other member => each other (List.mem_cons_of_mem _ member)) _ ordered
    have value := each entry (List.mem_cons_self ..) mode
    have inserted := insert_last last entry.2
    have key := yields_literal (.text entry.1) mode
    rw [List.map_cons, Eval.evalEntries]
    split
    · rename_i none
      cases none
    · rename_i keyTree element found
      cases found
      refine .bind key (.bind (.valueOf _) (.bind (.pure _) (.bind value (.bind (.valueOf _) ?_))))
      change Delivers (Eval.evalEntries mode (Entries.insert entry.1 entry.2 before) _) _
      rw [inserted]
      exact rest

theorem yields_array {trees : List Expr} (single : ∀ tree ∈ trees, tree.Single)
    {items : List Value} (delivers : ∀ mode, Delivers (Eval.evalItems mode trees) items) :
    Yields (container .square trees) (.array items) := by
  intro mode
  cases trees with
  | nil =>
    have none := delivers mode .new
    rw [Eval.evalItems] at none
    cases none
    change Delivers (Eval.eval mode .emptyArray) _
    rw [Eval.eval]
    exact .pure _
  | cons first rest =>
    have elements := delivers mode.operand
    rw [← Expr.items_container .square single] at elements
    rw [container, Eval.eval]
    exact .bind elements (.pure _)

theorem yields_dict {trees : List Expr} (single : ∀ tree ∈ trees, tree.Single)
    {entries : List (String × Value)}
    (delivers : ∀ mode, Delivers (Eval.evalEntries mode [] trees) entries) :
    Yields (container .curly trees) (.dict entries) := by
  intro mode
  cases trees with
  | nil =>
    have none := delivers mode .new
    rw [Eval.evalEntries] at none
    cases none
    change Delivers (Eval.eval mode .emptyDict) _
    rw [Eval.eval]
    exact .pure _
  | cons first rest =>
    have elements := delivers mode.operand
    rw [← Expr.items_container .curly single] at elements
    rw [container, Eval.eval]
    exact .bind elements (.pure _)

/-! Constants. -/

theorem isConst_comma (left right : Expr) :
    (Expr.binary .comma left right).isConst = (left.isConst && right.isConst) := rfl

theorem isConst_row {first : Expr} {rest : List Expr} (const : first.isConst = true)
    (each : ∀ tree ∈ rest, tree.isConst = true) : (row first rest).isConst = true := by
  induction rest generalizing first with
  | nil => exact const
  | cons tree rest step =>
    have joined : (Expr.binary .comma first tree).isConst = true := by
      rw [isConst_comma, const, each tree (List.mem_cons_self ..), Bool.and_self]
    exact step joined fun other member => each other (List.mem_cons_of_mem _ member)

theorem isConst_container (bracket : Bracket) {trees : List Expr} (boxed : bracket ≠ .round)
    (each : ∀ tree ∈ trees, tree.isConst = true) : (container bracket trees).isConst = true := by
  cases trees with
  | nil =>
    cases bracket with
    | round => exact absurd rfl boxed
    | square => rfl
    | curly => rfl
  | cons first rest =>
    exact isConst_row (each first (List.mem_cons_self ..))
      fun tree member => each tree (List.mem_cons_of_mem _ member)

/-! Values and their trees. -/

/-- A tree is what the JSON text of a value is read as, and it stands for the value. -/
structure Spells (tree : Expr) (value : Value) : Prop where
  operand : Operand value.toJson.toList tree
  single : tree.Single
  const : tree.isConst = true
  yields : Yields tree value

theorem spells_natural {number : Int64} {size : Nat} (eq : number.toInt = size) :
    Spells (.literal (.int number)) (.int number) where
  operand := by
    have small : size < 2 ^ 63 := by
      have upper := number.toInt_lt
      omega
    have digits := operand_digits small
    rw [← eq, Int64.ofInt_toInt] at digits
    have text : (Value.int number).toJson.toList = Nat.toDigits 10 size := by
      rw [Value.toJson, eq]
      exact Nat.toList_repr
    rw [text]
    exact digits
  single := trivial
  const := rfl
  yields := yields_literal _

theorem spells_negative {number : Int64} (above : Int64.minValue < number) {size : Nat}
    (eq : number.toInt = Int.negSucc size) :
    Spells (.unary .negate (.literal (.int (-number)))) (.int number) where
  operand := by
    have small : size + 1 < 2 ^ 63 := by
      rw [Int64.lt_iff_toInt_lt, Int64.toInt_minValue] at above
      omega
    have opposite : Int64.ofInt ((size + 1 : Nat) : Int) = -number := by
      rw [← Int64.ofInt_toInt number, eq, ← Int64.ofInt_neg, Int.neg_negSucc]
    have digits := operand_negative small
    rw [opposite] at digits
    have text : (Value.int number).toJson.toList = '-' :: Nat.toDigits 10 (size + 1) := by
      rw [Value.toJson, eq]
      change ("-" ++ Nat.repr (size + 1)).toList = _
      rw [String.toList_append, Nat.toList_repr]
      rfl
    rw [text]
    exact digits
  single := show Op.priority .negate < Op.priority .comma by decide
  const := rfl
  yields := by
    have yields := yields_negative (-number)
    rwa [Int64.neg_neg] at yields

theorem itemsJson_eq (items : List Value) : Value.itemsJson items = items.map Value.toJson := by
  induction items with
  | nil => rfl
  | cons item items step => rw [Value.itemsJson, step, List.map_cons]

theorem entriesJson_eq (entries : List (String × Value)) :
    Value.entriesJson entries =
      entries.map fun entry => Quoted.json entry.1 ++ ":" ++ entry.2.toJson := by
  induction entries with
  | nil => rfl
  | cons entry entries step => rw [Value.entriesJson, step, List.map_cons]

theorem toList_array (items : List Value) :
    (Value.array items).toJson.toList =
      enclosed .square (items.map fun item => item.toJson.toList) := by
  rw [Value.toJson, itemsJson_eq]
  simp [enclosed, opening, Enclosure.close, String.toList_intercalate, Function.comp_def]

theorem toList_dict (entries : List (String × Value)) :
    (Value.dict entries).toJson.toList =
      enclosed .curly (entries.map fun entry =>
        Quoted.jsonChars entry.1.toList ++ ':' :: entry.2.toJson.toList) := by
  rw [Value.toJson, entriesJson_eq]
  simp [enclosed, opening, Enclosure.close, String.toList_intercalate, Function.comp_def,
    Quoted.json]

theorem spells_array {items : List Value} {tree : Value → Expr}
    (each : ∀ item ∈ items, Spells (tree item) item) :
    Spells (container .square (items.map tree)) (.array items) where
  operand := by
    rw [toList_array]
    apply operand_container (by decide)
    exact fun item member => (each item member).operand.part (each item member).single _
  single := Expr.single_container ..
  const := by
    apply isConst_container _ (by decide)
    exact List.forall_mem_map.mpr fun item member => (each item member).const
  yields := by
    apply yields_array (List.forall_mem_map.mpr fun item member => (each item member).single)
    exact evalItems_delivers fun item member => (each item member).yields

theorem spells_dict {entries : List (String × Value)}
    (ordered : (Entries.names entries).Pairwise (· < ·)) {tree : String × Value → Expr}
    (each : ∀ entry ∈ entries, Spells (tree entry) entry.2) :
    Spells (container .curly (entries.map (entryTree tree))) (.dict entries) where
  operand := by
    rw [toList_dict]
    apply operand_container (by decide)
    exact fun entry member => (each entry member).operand.entry entry.1 (by decide)
  single := Expr.single_container ..
  const := by
    apply isConst_container _ (by decide)
    exact List.forall_mem_map.mpr fun entry member => (each entry member).const
  yields := by
    apply yields_dict (List.forall_mem_map.mpr fun entry member => single_entry _ _)
    intro mode
    exact evalEntries_delivers (fun entry member => (each entry member).yields) mode [] ordered

theorem Plain.spelled {value : Value} (plain : Plain value) : ∃ tree, Spells tree value := by
  induction plain with
  | null => exact ⟨_, operand_word (by decide), trivial, rfl, yields_literal _⟩
  | bool flag =>
    cases flag with
    | false => exact ⟨_, operand_word (by decide), trivial, rfl, yields_literal _⟩
    | true => exact ⟨_, operand_word (by decide), trivial, rfl, yields_literal _⟩
  | @int number above =>
    cases eq : number.toInt with
    | ofNat size => exact ⟨_, spells_natural eq⟩
    | negSucc size => exact ⟨_, spells_negative above eq⟩
  | text content =>
    refine ⟨.literal (.text content), ?_, trivial, rfl, yields_literal _⟩
    rw [Value.toJson, Quoted.json, String.toList_ofList]
    exact operand_text content
  | array each spelled =>
    choose! tree spells using spelled
    exact ⟨_, spells_array spells⟩
  | dict ordered each spelled =>
    choose! tree spells using spelled
    exact ⟨_, spells_dict ordered spells⟩

theorem parseAll_operand {text : List Char} {tree : Expr} (operand : Operand text tree) :
    Expr.parseAll .inline text = .ok tree := by
  have takes : TakesValue .group := by decide
  have nothing : Follows [] := nofun
  have found := operand.read takes nothing
  rw [List.append_nil] at found
  exact parseAll_of_finds found (finds_end .inline tree)

/-- The JSON text of a value without floats is read as a constant that has the value in every
context, reports nothing and changes nothing. -/
theorem parseAll_toJson {value : Value} (plain : Plain value) :
    ∃ tree, Expr.parseAll .inline value.toJson.toList = .ok tree ∧ tree.isConst = true ∧
      ∀ (mode : EvalMode) (context : Context),
        context.evaluate mode tree = (.owned value, context) := by
  obtain ⟨tree, spells⟩ := plain.spelled
  refine ⟨tree, parseAll_operand spells.operand, spells.const, ?_⟩
  intro mode context
  rw [Context.evaluate, spells.yields mode context]

/-- Brackets in brackets, a key with escapes and the least integer. -/
def nested : Value :=
  .dict [("", .array [.array [.dict []]]),
    ("\"\n\x01", .array [.int (-9223372036854775807), .null])]

theorem nested_parsed :
    Plain nested ∧ ∃ tree, Expr.parseAll .inline nested.toJson.toList = .ok tree ∧
      tree.isConst = true ∧ ∀ (mode : EvalMode) (context : Context),
        context.evaluate mode tree = (.owned nested, context) :=
  have empty : Plain (.array [.array [.dict []]]) := by
    refine .array (List.forall_mem_singleton.mpr (.array (List.forall_mem_singleton.mpr ?_)))
    exact .dict .nil nofun
  have numbers : Plain (.array [.int (-9223372036854775807), .null]) :=
    .array (List.forall_mem_cons.mpr ⟨.int (by decide), List.forall_mem_singleton.mpr .null⟩)
  have plain : Plain nested :=
    .dict (by decide) (List.forall_mem_cons.mpr ⟨empty, List.forall_mem_singleton.mpr numbers⟩)
  ⟨plain, parseAll_toJson plain⟩

end HtmlTemplate.JsonText
