import HtmlTemplate.Expr.Parser
import HtmlTemplate.Proofs.Elements.Parts
import HtmlTemplate.Proofs.Reading.Basic

/-! Rows of elements as trees. Commas are added at the top of a row, and everything stronger goes down to its
last element, so the elements can be told apart again whatever their own shape is. In a text that goes on with the
mark after an element, a row is read as it is alone: there it may have a tree in front of it that a comma has ended,
and every operator of the row goes past that comma. -/

namespace HtmlTemplate

namespace Expr

/-- A tree that is one element of a row: no comma and no semicolon is at its top. -/
def Single : Expr → Prop
  | noArguments => False
  | unary op _ | binary op _ _ => op.priority < Op.priority .comma
  | _ => True

namespace Single

variable {tree : Expr} (single : tree.Single)
include single

theorem insert_comma (right : Expr) : tree.insert .comma (some right) = binary .comma tree right := by
  cases tree with
  | unary op operand =>
    have weaker : ¬Op.priority .comma < op.priority := Nat.not_lt_of_gt single
    rw [Expr.insert, if_neg weaker, join]
  | binary op left chain =>
    have weaker : ¬Op.priority .comma < op.priority := Nat.not_lt_of_gt single
    rw [Expr.insert, if_neg weaker, if_neg (by simp [Op.isRightAssoc, Op.isAssignment]), join]
  | _ => rfl

theorem sequence_eq : tree.sequence = [tree] := by
  cases tree with
  | binary op left right =>
    cases op with
    | comma => exact absurd single (Nat.lt_irrefl _)
    | _ => rfl
  | _ => rfl

theorem items_bracketed (bracket : Bracket) : (bracketed bracket tree).items = [tree] := by
  have whole := single.sequence_eq
  cases tree with
  | noArguments => exact single.elim
  | _ => first | rfl | exact whole

/-- An operator inside of an element leaves it one. -/
theorem insert {op : Op} (strong : op.priority < Op.priority .comma) (right : Option Expr) :
    (tree.insert op right).Single := by
  have joined (left : Expr) : (join op left right).Single := by
    cases right <;> exact strong
  cases tree with
  | unary link operand =>
    rw [Expr.insert]
    split
    · exact single
    · exact joined _
  | binary link left chain =>
    rw [Expr.insert]
    split
    · exact single
    · split
      · exact single
      · exact joined _
  | _ => exact joined _

end Single

/-- A tree at the end of a row, or alone where there is no row yet. -/
def joined : Option Expr → Expr → Expr
  | none, tree => tree
  | some row, tree => binary .comma row tree

/-- Operators that bind more than a comma go to the last element of a row. -/
theorem joined_insert {before : Option Expr} {op : Op}
    (strong : ∀ row ∈ before, op.priority < Op.priority .comma) (right : Option Expr) (tree : Expr) :
    (joined before tree).insert op right = joined before (tree.insert op right) := by
  cases before with
  | none => rfl
  | some row => rw [joined, Expr.insert, if_pos (strong row rfl), joined]

/-- A tree and more trees joined by commas. -/
def row (first : Expr) (rest : List Expr) : Expr := rest.foldl (binary .comma) first

/-- What a pair of brackets with some elements in it is read as. -/
def container (bracket : Bracket) : List Expr → Expr
  | [] => ((Enclosure.bracket bracket).empty?).getD (bracketed bracket noArguments)
  | first :: rest => bracketed bracket (row first rest)

theorem sequence_row {rest : List Expr} (single : ∀ tree ∈ rest, tree.Single) (first : Expr) :
    (row first rest).sequence = first.sequence ++ rest := by
  induction rest generalizing first with
  | nil => rw [List.append_nil]; rfl
  | cons tree rest step =>
    have joined := step (fun other member => single other (List.mem_cons_of_mem _ member))
      (binary .comma first tree)
    rw [sequence, (single tree (List.mem_cons_self ..)).sequence_eq, List.append_assoc] at joined
    exact joined

/-- A row of more than one element ends with a comma and its right side. -/
theorem row_comma (first second : Expr) (rest : List Expr) :
    ∃ left right, row first (second :: rest) = binary .comma left right := by
  induction rest generalizing first second with
  | nil => exact ⟨first, second, rfl⟩
  | cons third rest step => exact step (binary .comma first second) third

theorem single_container (bracket : Bracket) (trees : List Expr) : (container bracket trees).Single := by
  cases trees with
  | nil => cases bracket <;> trivial
  | cons first rest => trivial

theorem items_container (bracket : Bracket) {trees : List Expr} (single : ∀ tree ∈ trees, tree.Single) :
    (container bracket trees).items = trees := by
  cases trees with
  | nil => cases bracket <;> rfl
  | cons first rest =>
    have alone := single first (List.mem_cons_self ..)
    cases rest with
    | nil => exact alone.items_bracketed bracket
    | cons second rest =>
      have sequence := sequence_row (fun tree member => single tree (List.mem_cons_of_mem _ member)) first
      rw [alone.sequence_eq, List.singleton_append] at sequence
      obtain ⟨left, right, eq⟩ := row_comma first second rest
      rw [container, items, eq]
      rw [eq] at sequence
      exact sequence

end Expr

/-! Operands and operators. -/

namespace Elements

open CharClass Reading

variable {options : ParseOptions} {tail : List Char}

/-- Two operators whose operands are read alike, but for the brackets of a call that may hold nothing. -/
structure Alike (op instead : Op) : Prop where
  named : (op = .member ∨ op = .sharp ∨ op = .scope) ↔ instead = .member ∨ instead = .sharp ∨ instead = .scope
  call : op = .call → instead = .call

theorem Alike.refl (op : Op) : Alike op op := ⟨Iff.rfl, id⟩

/-- A text is read with some options and, where it goes on, with others. What may be used is the same, and after a gap
that is passed in the text alone comes the same in both. -/
structure Bridges (tail : List Char) (one two : ParseOptions) : Prop where
  closes : Closes tail
  operators : two.operators = one.operators
  gap {first second : Input} : Extends tail first.skipSpacing second.skipSpacing → (Gap.skip one false first).2 = true →
    Approaches two second ((Gap.skip one false first).1.rest ++ tail)

theorem Marked.bridges (marked : Marked tail) : Bridges tail options.separated options :=
  ⟨marked.closes, rfl, fun further goesOn => skip_extends marked options false further (.inl goesOn)⟩

variable {one two : ParseOptions}

theorem Bridges.approaches (bridges : Bridges tail one two) {first second : Input} (further : Extends tail first second)
    (goesOn : (Gap.skip one false first).2 = true) :
    Approaches two second ((Gap.skip one false first).1.rest ++ tail) :=
  bridges.gap (further.skipSpacing bridges.closes) goesOn

section

variable {first second : Input} (further : Extends tail first second) (closes : Closes tail)
include further closes

theorem readName_again : Again (Kept tail id) (Parser.readName first) (Parser.readName second) := by
  have word := readWord_kept further closes
  have same : (Literal.readWord second).value = (Literal.readWord first).value := word.value
  unfold Parser.readName
  dsimp only
  rw [same]
  split
  · exact .error
  · exact .ok ⟨congrArg Expr.name same, word.rest⟩

theorem readValue_again {op instead : Op} (call : op = .call → instead = .call) (begun : first.rest ≠ []) :
    Again (Kept tail id) (Parser.readValue op first) (Parser.readValue instead second) := by
  have nothing : Again (Kept tail id) (Parser.readValue.nothing op first) (Parser.readValue.nothing instead second) := by
    unfold Parser.readValue.nothing
    split
    · rename_i same
      rw [if_pos (call same)]
      exact .ok ⟨rfl, further⟩
    · exact .error
  have word := readWord_kept further closes
  have same : (Literal.readWord second).value = (Literal.readWord first).value := word.value
  obtain ⟨char, text, eq⟩ := List.exists_cons_of_ne_nil begun
  have longer : second.rest = char :: (text ++ tail) := by rw [further, eq, List.cons_append]
  unfold Parser.readValue
  rw [eq, longer]
  dsimp only
  rw [same]
  split
  · exact .map (readString_again further begun char) fun x y kept =>
      ⟨congrArg (fun text => Expr.literal (.text text)) kept.value, kept.rest⟩
  · split
    · have number := readNumber_kept further closes
      exact .ok ⟨congrArg Expr.literal number.value, number.rest⟩
    · split
      · exact nothing
      · exact .ok ⟨congrArg Literal.wordExpr same, word.rest⟩

end

mutual

theorem readOperand_again (bridges : Bridges tail one two) {op instead : Op} (alike : Alike op instead) {first second : Input}
    (reaches : (Gap.skip one false first).2 = true →
      Approaches two second ((Gap.skip one false first).1.rest ++ tail)) :
    Again (Kept tail id) (Parser.readOperand one op first)
      (Parser.readOperand two instead second) := by
  have shorter := Gap.size_skip_le one false first
  rw [Parser.readOperand, Parser.readOperand]
  cases goesOn : (Gap.skip one false first).2 with
  | false => exact .error
  | true =>
    obtain ⟨rest, follows⟩ := reaches goesOn
    have after : Extends tail (Gap.skip one false first).1 (Gap.skip two false second).1 := rest
    rw [follows]
    by_cases named : op = .member ∨ op = .sharp ∨ op = .scope
    · rw [if_pos named, if_pos (alike.named.mp named)]
      exact .map (readName_again after bridges.closes) fun x y kept => ⟨kept.value, kept.rest⟩
    · rw [if_neg named, if_neg fun other => named (alike.named.mpr other)]
      have led : Again (Kept tail id) _ _ := readLed_again bridges alike after (visible_skip goesOn).ne_nil
      exact .map led fun x y kept => ⟨kept.value, kept.rest⟩
termination_by 8 * first.size + 1
decreasing_by all_goals omega

theorem readLed_again (bridges : Bridges tail one two) {op instead : Op} (alike : Alike op instead) {first second : Input}
    (further : Extends tail first second) (begun : first.rest ≠ []) :
    Again (Kept tail id) (Parser.readLed one op first) (Parser.readLed two instead second) := by
  have leading : Again (Option.Rel (Passed tail)) (OperatorReading.readLeading one first)
      (OperatorReading.readLeading two second) := readLeading_again further bridges.closes bridges.operators
  cases found : OperatorReading.readLeading one first with
  | error fault =>
    rw [readLed_failed found]
    exact .error
  | ok result =>
    obtain ⟨other, sought, related⟩ := leading result found
    cases related with
    | @some x y passed =>
      obtain ⟨mark, next⟩ := x
      obtain ⟨twin, follow⟩ := y
      obtain ⟨same, after⟩ := passed
      obtain rfl : twin = mark := same
      have later := (OperatorReading.passes_of_readLeading found).2
      have shorter := Gap.size_skip_le one false next
      obtain ⟨reached, alone⟩ := readLed_marked found op
      obtain ⟨reaches, further⟩ := readLed_marked sought instead
      rw [alone, further]
      cases goesOn : (Gap.skip one false next).2 with
      | false => exact .error
      | true =>
        obtain ⟨rest, follows⟩ := bridges.approaches after goesOn
        rw [follows]
        have led : Again (Kept tail id) _ _ := readLed_again bridges alike rest (visible_skip goesOn).ne_nil
        exact .map led fun x y kept => ⟨congrArg (Parser.lead twin) kept.value, kept.rest⟩
    | none =>
      rw [readLed_unmarked found, readLed_unmarked sought]
      obtain ⟨char, text, eq⟩ := List.exists_cons_of_ne_nil begun
      have longer : second.rest = char :: (text ++ tail) := by rw [further, eq, List.cons_append]
      have value := readValue_again further bridges.closes alike.call begun
      have shorter := (Input.passes_advance (List.length_pos_iff.mpr begun)).2
      rw [eq, longer]
      dsimp only
      split
      · exact value
      · rename_i enclosure _
        have group : Again (Kept tail id) _ _ := readGroup_again bridges enclosure (further.advance begun)
        exact .map group fun x y kept => ⟨kept.value, kept.rest⟩
termination_by 8 * first.size
decreasing_by all_goals omega

theorem readGroup_again (bridges : Bridges tail one two) (enclosure : Enclosure) {first second : Input}
    (further : Extends tail first second) :
    Again (Kept tail id) (Parser.readGroup one enclosure first)
      (Parser.readGroup two enclosure second) := by
  have shorter := Gap.size_skip_le one false first
  rw [Parser.readGroup, Parser.readGroup]
  dsimp only
  cases goesOn : (Gap.skip one false first).2 with
  | false => exact .error
  | true =>
    obtain ⟨rest, follows⟩ := bridges.approaches further goesOn
    have after : Extends tail (Gap.skip one false first).1 (Gap.skip two false second).1 := rest
    have begun := (visible_skip goesOn).ne_nil
    have closed : (Gap.skip two false second).1.isAt enclosure.close =
        (Gap.skip one false first).1.isAt enclosure.close := after.isClass_begun begun _
    rw [follows]
    unfold Input.eat?
    rw [closed]
    simp only [Bool.not_true, Bool.false_eq_true, if_false]
    split
    · rename_i empty next empties eaten
      split at eaten
      · rename_i closes
        rw [empties, if_pos closes]
        exact .ok ⟨rfl, after.advance begun⟩
      · cases eaten
    · rename_i open?
      split
      · rename_i empty next empties eaten
        split at eaten
        · rename_i closes
          exact absurd (if_pos closes) (open? _ _ empties)
        · cases eaten
      · have operand : Again (Kept tail id) _ _ :=
          readOperand_again bridges (.refl enclosure.op) (bridges.approaches after)
        refine .bind operand fun x y kept => ?_
        have shorter := x.le
        obtain ⟨value, rest⟩ := kept
        rw [value]
        have inner : Again (fun x y => Kept tail id x y ∧ x.rest.isAt enclosure.close = true) _ _ :=
          readOperators_again bridges enclosure.close x.value rest
        refine .bind inner fun z w found => .ok ⟨?_, ?_⟩
        · exact congrArg (Expr.bracketed enclosure.mark) found.1.value
        · exact found.1.rest.advance (Input.rest_ne_nil_of_isClass found.2)
termination_by 8 * first.size + 3
decreasing_by all_goals omega

theorem readOperators_again (bridges : Bridges tail one two) (mark : Char) (tree : Expr) {first second : Input}
    (further : Extends tail first second) :
    Again (fun x y => Kept tail id x y ∧ x.rest.isAt mark = true)
      (Parser.readOperators one (some mark) tree first)
      (Parser.readOperators two (some mark) tree second) := by
  have shorter := Gap.size_skip_le one false first
  cases goesOn : (Gap.skip one false first).2 with
  | false =>
    rw [@readOperators_ended one (some mark) first tree (.inl goesOn)]
    exact .error
  | true =>
    obtain ⟨rest, follows⟩ := bridges.approaches further goesOn
    have after : Extends tail (Gap.skip one false first).1 (Gap.skip two false second).1 := rest
    have closed : (Gap.skip two false second).1.isAt mark = (Gap.skip one false first).1.isAt mark :=
      after.isClass_begun (visible_skip goesOn).ne_nil _
    cases closes : (Gap.skip one false first).1.isAt mark with
    | true =>
      rw [@readOperators_closed one (some mark) first tree goesOn closes,
        @readOperators_closed two (some mark) second tree follows (closed.trans closes)]
      exact .ok ⟨⟨rfl, after⟩, closes⟩
    | false =>
      have opened := closed.trans closes
      cases found : OperatorReading.read one true (Gap.skip one false first).1 with
      | error fault =>
        rw [@readOperators_failed one (some mark) first tree goesOn closes _ found]
        exact .error
      | ok result =>
        cases result with
        | none =>
          rw [@readOperators_ended one (some mark) first tree (.inr ⟨closes, found⟩)]
          exact .error
        | some passed =>
          obtain ⟨op, next⟩ := passed
          obtain ⟨follow, sought, later⟩ := read_extends bridges.operators separates_enclosed after bridges.closes found
          have passes := (OperatorReading.passes_of_read found).2
          obtain ⟨reached, alone⟩ := @readOperators_applied one (some mark) first tree goesOn closes _ _ found
          obtain ⟨reaches, further⟩ := @readOperators_applied two (some mark) second tree follows opened _ _ sought
          rw [alone, further]
          have applied : Again (Kept tail id) _ _ :=
            readApplied_again bridges op (fun _ _ _ _ => rfl) tree later
          refine .bind applied fun x y kept => ?_
          have shorter := x.le
          obtain ⟨value, rest⟩ := kept
          rw [value]
          have row : Again (fun x y => Kept tail id x y ∧ x.rest.isAt mark = true) _ _ :=
            readOperators_again bridges mark x.value rest
          exact .map row fun z w found => ⟨⟨found.1.value, found.1.rest⟩, found.2⟩
termination_by 8 * first.size + 2
decreasing_by all_goals omega

theorem readApplied_again (bridges : Bridges tail one two) (op : Op) {change : Expr → Expr}
    (joins : ∀ instead ∈ [op, .alternative], ∀ right tree,
      (change tree).insert instead right = change (tree.insert instead right)) (tree : Expr) {first second : Input}
    (further : Extends tail first second) :
    Again (Kept tail change) (Parser.readApplied one tree op first)
      (Parser.readApplied two (change tree) op second) := by
  have joined := joins op List.mem_cons_self
  rw [Parser.readApplied, Parser.readApplied]
  split
  · exact .ok ⟨joined none tree, further⟩
  · split
    · have operand : Again (Kept tail id) _ _ :=
        readOperand_again bridges (.refl op) (bridges.approaches further)
      refine .bind operand fun x y kept => .ok ⟨?_, kept.rest⟩
      change (change tree).insert op (some y.value) = _
      rw [kept.value]
      exact joined _ tree
    · rename_i enclosure _
      have group : Again (Kept tail id) _ _ := readGroup_again bridges enclosure further
      refine .bind group fun x y right => ?_
      have shorter := x.le
      obtain ⟨value, rest⟩ := right
      rw [value, joined]
      dsimp only
      split
      · have operand : Again (Kept tail id) _ _ :=
          readOperand_again bridges (.refl .alternative) (bridges.approaches rest)
        refine .bind operand fun z w kept => .ok ⟨?_, kept.rest⟩
        change (change _).insert .alternative (some w.value) = _
        rw [kept.value]
        exact joins .alternative (List.mem_cons_of_mem _ List.mem_cons_self) _ _
      · exact .ok ⟨rfl, rest⟩
termination_by 8 * first.size + 4
decreasing_by all_goals omega

end

end Elements

end HtmlTemplate
