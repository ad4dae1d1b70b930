import HtmlTemplate.Proofs.Precedence.Row
import HtmlTemplate.Proofs.Precedence.Spine

/-! Reading a whole row gives the tree of precedence climbing. The tree built so far is an
edge with the operand at its end; every operator that is read grafts a frame on the edge, and
what follows a name goes to the end of it. -/

namespace HtmlTemplate.Precedence

open HtmlTemplate.Parser HtmlTemplate.Reading

namespace Operand

def leading : Operand → List Leading
  | .number leading _ | .name leading _ _ => leading

/-- The number or the name of an operand as it is written. -/
def atom : Operand → List Char
  | .number _ digits => digits.chars
  | .name _ word _ => word.chars

def base : Operand → Expr
  | .number _ digits => .literal digits.value
  | .name _ word _ => .name (String.ofList word.chars)

def accesses : Operand → Accesses
  | .number _ _ => .none
  | .name _ _ accesses => accesses

theorem parts_eq (operand : Operand) :
    operand.parts =
      operand.leading.map (symbolChars ·.val) ++ operand.atom :: operand.accesses.parts := by
  cases operand with
  | number leading digits => simp [parts, Operand.leading, atom, accesses, Accesses.parts]
  | name leading word accesses => simp [parts, Operand.leading, atom, Operand.accesses]

theorem tree_eq (operand : Operand) :
    operand.tree = leadingTree operand.leading (operand.accesses.tree operand.base) := by
  cases operand <;> rfl

theorem basic_base (operand : Operand) : Base operand.base := by
  cases operand <;> exact trivial

theorem finds_atom (op : Op) (operand : Operand) (parts : List (List Char)) :
    Finds (readLed .unbounded op) (operand.atom ++ spaced parts) operand.base (spaced parts) := by
  cases operand with
  | number leading digits => exact finds_number op digits parts
  | name leading word accesses => exact finds_name op word parts

theorem atom_begins (operand : Operand) :
    ∃ char more, operand.atom = char :: more ∧ CharClass.isIdent char = true := by
  cases operand with
  | number leading digits =>
    obtain ⟨char, more, eq, digit⟩ := digits.whole.first
    refine ⟨char, more ++ digits.fractionChars ++ digits.exponentChars, ?_, isIdent_of_isDigit digit⟩
    simp [atom, Number.chars, eq]
  | name leading word accesses =>
    obtain ⟨char, more, eq⟩ := List.exists_cons_of_ne_nil word.nonempty
    exact ⟨char, more, eq, word.named char (by rw [eq]; simp)⟩

end Operand

/-- How an operand begins: visibly, and not as an empty pair of brackets ends. -/
def Begins (text : List Char) : Prop :=
  ∃ char more, text = char :: more ∧ CharClass.isWhitespace char = false ∧ char ≠ ']'

theorem Begins.visible {text : List Char} (begins : Begins text) : Visible text := by
  obtain ⟨char, more, rfl, visible, -⟩ := begins
  exact visible

theorem begins_leading (leading : List Leading) {atom : List Char}
    (named : ∃ char more, atom = char :: more ∧ CharClass.isIdent char = true)
    (parts : List (List Char)) :
    Begins (joined (leading.map (symbolChars ·.val) ++ atom :: parts)) := by
  cases leading with
  | nil =>
    obtain ⟨char, more, rfl, named⟩ := named
    refine ⟨char, more ++ spaced parts, rfl, not_isWhitespace named, ?_⟩
    rintro rfl
    cases named
  | cons op leading =>
    obtain ⟨op, member⟩ := op
    fin_cases member <;> exact ⟨_, _, rfl, rfl, by decide⟩

/-- Leading operators are read one after the other, and then the operand. -/
theorem finds_leading (op : Op) {atom : List Char} {base : Expr} {parts : List (List Char)}
    (named : ∃ char more, atom = char :: more ∧ CharClass.isIdent char = true)
    (found : Finds (readLed .unbounded op) (atom ++ spaced parts) base (spaced parts))
    (leading : List Leading) :
    Finds (readLed .unbounded op) (joined (leading.map (symbolChars ·.val) ++ atom :: parts))
      (leadingTree leading base) (spaced parts) := by
  induction leading with
  | nil => exact found
  | cons first leading step =>
    intro input rest
    obtain ⟨next, recognised, after⟩ := read_leading first rest
    have begins := begins_leading leading named parts
    rw [spaced_eq (by simp)] at after
    obtain ⟨gapRest, goesOn⟩ := skip_visible .unbounded begins.visible false (.inr after)
    obtain ⟨parsed, success, value, left⟩ := step _ gapRest
    rw [readLed]
    split
    · rename_i error other
      rw [recognised] at other
      cases other
    · rename_i other later eq
      rw [recognised] at eq
      cases eq
      simp only [goesOn, Bool.not_true, Bool.false_eq_true, if_false, success]
      refine ⟨_, rfl, ?_, left⟩
      simp only [Parsed.widen, Parsed.map, value]
      rfl
    · rename_i other
      rw [recognised] at other
      cases other

/-- Up to what follows its name, an operand is read at once. -/
theorem finds_operand (op : Op) (named : op ≠ .member ∧ op ≠ .sharp ∧ op ≠ .scope)
    (operand : Operand) (after : List (List Char)) {text : List Char}
    (eq : text = joined (operand.parts ++ after) ∨ text = spaced (operand.parts ++ after)) :
    Finds (readOperand .unbounded op) text (leadingTree operand.leading operand.base)
      (spaced (operand.accesses.parts ++ after)) := by
  intro input rest
  have begins := begins_leading operand.leading operand.atom_begins
    (operand.accesses.parts ++ after)
  have parts : operand.parts ++ after = operand.leading.map (symbolChars ·.val) ++
      operand.atom :: (operand.accesses.parts ++ after) := by
    rw [operand.parts_eq, List.append_assoc, List.cons_append]
  rw [parts] at eq
  have before : input.rest = joined (operand.leading.map (symbolChars ·.val) ++
        operand.atom :: (operand.accesses.parts ++ after)) ∨
      input.rest = ' ' :: joined (operand.leading.map (symbolChars ·.val) ++
        operand.atom :: (operand.accesses.parts ++ after)) := by
    rcases eq with rfl | rfl
    · exact .inl rest
    · right
      rw [rest, spaced_eq (by simp)]
  obtain ⟨gapRest, goesOn⟩ := skip_visible .unbounded begins.visible false before
  obtain ⟨parsed, success, value, left⟩ :=
    finds_leading op operand.atom_begins (operand.finds_atom op _) operand.leading _ gapRest
  rw [readOperand]
  simp only [goesOn, Bool.not_true, Bool.false_eq_true, if_false, named.1, named.2.1, named.2.2,
    or_false, success]
  exact ⟨_, rfl, value, left⟩

/-! Operators and what ends them. -/

/-- Marks that close an enclosure; the colon does so where rows have none of their own. -/
def Closes (colons : Bool) (mark : Char) : Prop :=
  mark = ')' ∨ mark = ']' ∨ mark = ':' ∧ colons = false

/-- What comes after a row: the closing mark, or the end where there is none. The last text
is what the row leaves. -/
inductive Closing (colons : Bool) : Option Char → List (List Char) → List Char → Prop where
  | ends : Closing colons none [] []
  | mark {char : Char} (closes : Closes colons char) (parts : List (List Char)) :
    Closing colons (some char) ([char] :: parts) (char :: spaced parts)

theorem Closing.closes {colons : Bool} {close : Option Char} {after : List (List Char)}
    {rest : List Char} (closing : Closing colons close after rest) :
    ∀ mark ∈ close, Closes colons mark := by
  intro mark found
  cases closing with
  | ends => cases found
  | mark closes parts =>
    cases found
    exact closes

theorem Closes.visible {colons : Bool} {mark : Char} (closes : Closes colons mark) :
    CharClass.isWhitespace mark = false := by
  rcases closes with rfl | rfl | ⟨rfl, -⟩ <;> rfl

/-- A row ends at its closing mark. -/
theorem finds_closing {colons : Bool} {close : Option Char} {after : List (List Char)}
    {rest : List Char} (closing : Closing colons close after rest) (tree : Expr) :
    Finds (readOperators .unbounded close tree) (spaced after) tree rest := by
  cases closing with
  | ends => exact finds_end .unbounded tree
  | @mark char closes parts =>
    intro input text
    have visible : Visible (char :: spaced parts) := closes.visible
    obtain ⟨gapRest, goesOn⟩ := skip_visible .unbounded visible false (.inr text)
    rw [readOperators]
    simp only [Option.isNone_some, goesOn, Bool.not_true, Bool.false_eq_true, if_false,
      Option.any_some, Input.isAt, isClass_eq gapRest, beq_self_eq_true, if_true]
    exact ⟨_, rfl, rfl, gapRest⟩

/-- An operator is read and applied, and the row goes on. -/
theorem finds_mark {colons : Bool} {close : Option Char} (closes : ∀ mark ∈ close, Closes colons mark)
    {chars : List Char} {op : Op} (member : (chars, op) ∈ marks) (allowed : op = .colon → colons = true)
    {tree applied value : Expr} {parts after : List (List Char)} {rest : List Char}
    (right : Finds (readApplied .unbounded tree op) (spaced parts) applied (spaced after))
    (more : Finds (readOperators .unbounded close applied) (spaced after) value rest) :
    Finds (readOperators .unbounded close tree) (spaced (chars :: parts)) value rest := by
  intro input text
  obtain ⟨char, last, rfl, visible, notRound, notSquare, colon⟩ := opens_mark member
  have begins : Visible (char :: last ++ spaced parts) := visible
  obtain ⟨gapRest, goesOn⟩ := skip_visible .unbounded begins close.isNone (.inr text)
  have notClose : (close.any fun mark =>
      (Gap.skip .unbounded close.isNone input).1.isAt mark) = false := by
    cases close with
    | none => rfl
    | some mark =>
      simp only [Option.any_some, Input.isAt, isClass_eq gapRest, beq_eq_false_iff_ne]
      rintro rfl
      rcases closes char rfl with rfl | rfl | ⟨rfl, noColons⟩
      · exact notRound rfl
      · exact notSquare rfl
      · rw [allowed (colon rfl)] at noColons
        cases noColons
  obtain ⟨next, recognised, nextRest⟩ := read_mark member close.isSome gapRest
  obtain ⟨found, success, value, left⟩ := right next nextRest
  subst value
  obtain ⟨parsed, read, final, finalRest⟩ := more found.rest left
  unfold readOperators
  simp only [goesOn, Bool.not_true, Bool.false_eq_true, if_false, notClose]
  split
  · rename_i error other
    rw [recognised] at other
    cases other
  · rename_i other
    rw [recognised] at other
    cases other
  · rename_i other later eq
    rw [recognised] at eq
    cases eq
    simp only [success, bind, Except.bind, read]
    exact ⟨_, rfl, final, finalRest⟩

/-! The right sides of operators. -/

theorem mem_marks_between {colons : Bool} (op : Between colons) :
    (symbolChars op.op, op.op) ∈ marks := by
  simp only [marks, List.map_append, List.mem_append, List.mem_map]
  exact .inl (.inr ⟨op.op, op.member, rfl⟩)

theorem mem_marks_trailing (op : Trailing) : (symbolChars op.val, op.val) ∈ marks := by
  simp only [marks, List.map_append, List.mem_append, List.mem_map]
  exact .inl (.inl ⟨op.val, op.property, rfl⟩)

/-- An operator between two operands takes the second up to what follows its name. -/
theorem finds_between {colons : Bool} (op : Between colons) (operand : Operand) (tree : Expr)
    (after : List (List Char)) :
    Finds (readApplied .unbounded tree op.op) (spaced (operand.parts ++ after))
      (tree.insert op.op (some (leadingTree operand.leading operand.base)))
      (spaced (operand.accesses.parts ++ after)) := by
  intro input rest
  have plain : ∀ op ∈ betweenOps, op.isTrailing = false ∧ Enclosure.ofOp? op = none ∧
      (op ≠ .member ∧ op ≠ .sharp ∧ op ≠ .scope) := by decide
  obtain ⟨notTrailing, notEnclosed, named⟩ := plain op.op op.member
  obtain ⟨parsed, success, value, left⟩ := finds_operand op.op named operand after (.inr rfl) input rest
  rw [readApplied]
  simp only [notTrailing, Bool.false_eq_true, if_false, notEnclosed, success]
  refine ⟨_, rfl, ?_, left⟩
  simp only [Parsed.map, value]

theorem finds_trailing (op : Trailing) (tree : Expr) (after : List (List Char)) :
    Finds (readApplied .unbounded tree op.val) (spaced after) (tree.insert op.val none)
      (spaced after) := by
  intro input rest
  have trailing : ∀ op ∈ trailingOps, op.isTrailing = true := by decide
  rw [readApplied]
  simp only [trailing op.val op.property, if_true]
  exact ⟨_, rfl, rfl, rest⟩

theorem finds_member (name : Word) (tree : Expr) (after : List (List Char)) :
    Finds (readApplied .unbounded tree .member) (spaced (name.chars :: after))
      (tree.insert .member (some (.name (String.ofList name.chars)))) (spaced after) := by
  intro input rest
  obtain ⟨gapRest, goesOn⟩ := skip_visible .unbounded (name.visible.append (spaced after)) false (.inr rest)
  obtain ⟨parsed, success, value, left⟩ := finds_readName name after _ gapRest
  have operand : readOperand .unbounded .member input =
      .ok (parsed.widen (Gap.reaches_skip .unbounded false input)) := by
    rw [readOperand]
    simp only [goesOn, Bool.not_true, Bool.false_eq_true, if_false, true_or, if_true, success]
    rfl
  rw [readApplied]
  simp only [Op.isTrailing, Bool.false_eq_true, if_false, Enclosure.ofOp?, operand]
  refine ⟨_, rfl, ?_, left⟩
  simp only [Parsed.map, Parsed.widen, value]

/-! Rows inside of enclosures. -/

/-- From its first operand to what closes it, a row is read to its tree. -/
def RowReads {colons : Bool} (row : Row colons) : Prop :=
  ∀ op : Op, op ≠ .member ∧ op ≠ .sharp ∧ op ≠ .scope →
    ∀ (close : Option Char) (after : List (List Char)) (rest : List Char),
      Closing colons close after rest →
      ∃ first middle,
        (∀ text, text = joined (row.parts ++ after) ∨ text = spaced (row.parts ++ after) →
          Finds (readOperand .unbounded op) text first middle) ∧
        Finds (readOperators .unbounded close first) middle row.tree rest

theorem begins_row {colons : Bool} (row : Row colons) (after : List (List Char)) :
    Begins (joined (row.parts ++ after)) ∧
      spaced (row.parts ++ after) = ' ' :: joined (row.parts ++ after) := by
  obtain ⟨first, links⟩ := row
  have begins := begins_leading first.leading first.atom_begins
    (first.accesses.parts ++ links.parts ++ after)
  have parts : (Row.mk first links).parts ++ after = first.leading.map (symbolChars ·.val) ++
      first.atom :: (first.accesses.parts ++ links.parts ++ after) := by
    simp only [Row.parts, first.parts_eq, List.append_assoc, List.cons_append]
  rw [parts]
  exact ⟨begins, spaced_eq (by simp)⟩

theorem not_empty_brackets {colons : Bool} {enclosure : Enclosure}
    (closes : Closes colons enclosure.close) {input : Input} (begins : Begins input.rest) :
    enclosure.empty? = none ∨ input.eat? enclosure.close = none := by
  obtain ⟨char, more, rest, -, notSquare⟩ := begins
  cases enclosure with
  | branch => exact .inl rfl
  | bracket bracket =>
    cases bracket with
    | round => exact .inl rfl
    | square =>
      right
      simp [Input.eat?, Input.isAt, isClass_eq rest, Enclosure.close, notSquare]
    | curly => rcases closes with closes | closes | ⟨closes, -⟩ <;> cases closes

theorem finds_group {colons : Bool} (enclosure : Enclosure)
    (closes : Closes colons enclosure.close) {row : Row colons} (reads : RowReads row)
    (after : List (List Char)) :
    Finds (readGroup .unbounded enclosure) (spaced (row.parts ++ [enclosure.close] :: after))
      (.bracketed enclosure.mark row.tree) (spaced after) := by
  intro input text
  obtain ⟨begins, gap⟩ := begins_row row ([enclosure.close] :: after)
  rw [gap] at text
  obtain ⟨gapRest, goesOn⟩ := skip_visible .unbounded begins.visible false (.inr text)
  have named : enclosure.op ≠ .member ∧ enclosure.op ≠ .sharp ∧ enclosure.op ≠ .scope := by
    obtain bracket | _ := enclosure
    · cases bracket <;> decide
    · decide
  obtain ⟨first, middle, operand, operators⟩ :=
    reads enclosure.op named _ _ _ (.mark closes after)
  obtain ⟨found, success, value, left⟩ := operand _ (.inl rfl) _ gapRest
  subst value
  obtain ⟨parsed, read, final, finalRest⟩ := operators found.rest left
  have filled : enclosure.empty? = none ∨
      (Gap.skip .unbounded false input).1.eat? enclosure.close = none :=
    not_empty_brackets closes (gapRest ▸ begins)
  unfold readGroup
  simp only [goesOn, Bool.not_true, Bool.false_eq_true, if_false]
  split
  · rename_i empty next isEmpty eaten
    rcases filled with none | none
    · rw [none] at isEmpty
      cases isEmpty
    · rw [none] at eaten
      cases eaten
  · simp only [success, bind, Except.bind, read]
    refine ⟨_, rfl, ?_, ?_⟩
    · simp only [final]
    · simp only [rest_advance, finalRest, List.tail_cons]

theorem finds_call {arguments : Row true} (reads : RowReads arguments) (tree : Expr)
    (after : List (List Char)) :
    Finds (readApplied .unbounded tree .call) (spaced (arguments.parts ++ [')'] :: after))
      (tree.insert .call (some (.bracketed .round arguments.tree))) (spaced after) := by
  intro input rest
  obtain ⟨parsed, success, value, left⟩ :=
    finds_group (.bracket .round) (.inl rfl) reads after input rest
  rw [readApplied]
  simp only [Op.isTrailing, Bool.false_eq_true, if_false, Enclosure.ofOp?, success, bind,
    Except.bind, reduceCtorEq, value]
  exact ⟨_, rfl, rfl, left⟩

theorem finds_subscript {key : Row true} (reads : RowReads key) (tree : Expr)
    (after : List (List Char)) :
    Finds (readApplied .unbounded tree .subscript) (spaced (key.parts ++ [']'] :: after))
      (tree.insert .subscript (some (.bracketed .square key.tree))) (spaced after) := by
  intro input rest
  obtain ⟨parsed, success, value, left⟩ :=
    finds_group (.bracket .square) (.inr (.inl rfl)) reads after input rest
  rw [readApplied]
  simp only [Op.isTrailing, Bool.false_eq_true, if_false, Enclosure.ofOp?, success, bind,
    Except.bind, reduceCtorEq, value]
  exact ⟨_, rfl, rfl, left⟩

/-- A ternary puts its condition and then its alternative into the tree. -/
theorem finds_ternary {chosen : Row false} (reads : RowReads chosen) (otherwise : Operand)
    (tree : Expr) (after : List (List Char)) :
    Finds (readApplied .unbounded tree .condition)
      (spaced (chosen.parts ++ [':'] :: (otherwise.parts ++ after)))
      ((Link.ternary chosen.tree).insert (leadingTree otherwise.leading otherwise.base) tree)
      (spaced (otherwise.accesses.parts ++ after)) := by
  intro input rest
  obtain ⟨parsed, success, value, left⟩ :=
    finds_group .branch (.inr (.inr ⟨rfl, rfl⟩)) reads _ input rest
  obtain ⟨last, read, lastValue, lastRest⟩ := finds_operand .alternative
    (by decide) otherwise after (.inr rfl) parsed.rest left
  rw [readApplied]
  simp only [Op.isTrailing, Bool.false_eq_true, if_false, Enclosure.ofOp?, success, bind,
    Except.bind, if_true, read, value]
  refine ⟨_, rfl, ?_, lastRest⟩
  simp only [Parsed.widen, Parsed.map, lastValue]
  rfl

theorem finds_callEmpty (tree : Expr) (after : List (List Char)) :
    Finds (readApplied .unbounded tree .call) (spaced ([')'] :: after))
      (tree.insert .call (some (.bracketed .round .noArguments))) (spaced after) := by
  intro input rest
  have visible : Visible (')' :: spaced after) := rfl
  obtain ⟨gapRest, goesOn⟩ := skip_visible .unbounded visible false (.inr rest)
  obtain ⟨found, success, value, left⟩ := finds_noArguments .unbounded _ _ gapRest
  have again : found.rest.rest = ')' :: spaced after := left
  obtain ⟨next, stays⟩ := skip_visible .unbounded visible false (.inl again)
  have closed : readOperators .unbounded (some ')') found.value found.rest =
      .ok ⟨found.value, (Gap.skip .unbounded false found.rest).1, Gap.reaches_skip ..⟩ := by
    rw [readOperators]
    simp only [Option.isNone_some, stays, Bool.not_true, Bool.false_eq_true, if_false,
      Option.any_some, Input.isAt, isClass_eq next, beq_self_eq_true, if_true]
  have group : ∃ parsed, readGroup .unbounded (.bracket .round) input = .ok parsed ∧
      parsed.value = .bracketed .round .noArguments ∧ parsed.rest.rest = spaced after := by
    unfold readGroup
    simp only [goesOn, Bool.not_true, Bool.false_eq_true, if_false, Enclosure.empty?,
      Enclosure.op, Enclosure.close, success, bind, Except.bind, closed]
    refine ⟨_, rfl, ?_, ?_⟩
    · simp only [Enclosure.mark, value]
    · simp only [rest_advance, next, List.tail_cons]
  obtain ⟨parsed, read, value, left⟩ := group
  rw [readApplied]
  simp only [Op.isTrailing, Bool.false_eq_true, if_false, Enclosure.ofOp?, read, bind,
    Except.bind, reduceCtorEq, value]
  exact ⟨_, rfl, rfl, left⟩

/-! Whole rows. -/

/-- What follows a name is read to the end of the edge. -/
def AccessesRead (accesses : Accesses) : Prop :=
  ∀ {base : Expr}, Base base →
    Base (accesses.tree base) ∧
    ∀ {colons : Bool} {close : Option Char}, (∀ mark ∈ close, Closes colons mark) →
      ∀ (limit : Nat) (frames : List Frame), Nested limit frames →
        ∀ (leading : List Leading) {after : List (List Char)} {value : Expr} {rest : List Char},
          Finds (readOperators .unbounded close
            (plug frames (leadingTree leading (accesses.tree base)))) (spaced after) value rest →
          Finds (readOperators .unbounded close (plug frames (leadingTree leading base)))
            (spaced (accesses.parts ++ after)) value rest

/-- Links are read as climbing goes on from the end of the edge. -/
def LinksRead {colons : Bool} (links : Links colons) : Prop :=
  ∀ {close : Option Char} {after : List (List Char)} {rest : List Char},
    Closing colons close after rest →
    ∀ (frames : List Frame) {tree : Expr}, Nested weakest frames → Steady tree →
      Finds (readOperators .unbounded close (plug frames tree)) (spaced (links.parts ++ after))
        (finish weakest frames tree links.joined).1 rest

theorem accessesRead_none : AccessesRead .none := by
  intro base basic
  refine ⟨basic, ?_⟩
  intro colons close closes limit frames nested leading after value rest found
  exact found

/-- A mark after a name, when what comes after it is read. -/
theorem accessesRead_mark (op : Op) (chars : List Char) (parts : List (List Char))
    (right : Option Expr) {rest accesses : Accesses} (member : (chars, op) ∈ marks)
    (strong : op.priority = 1 ∧ op.isRightAssoc = false ∧ op ≠ .colon)
    (applied : ∀ tree after, Finds (readApplied .unbounded tree op) (spaced (parts ++ after))
      (tree.insert op right) (spaced after))
    (written : accesses.parts = chars :: parts ++ rest.parts)
    (built : ∀ base, accesses.tree base = rest.tree (Expr.join op base right))
    (more : AccessesRead rest) : AccessesRead accesses := by
  intro base basic
  have joined : Base (Expr.join op base right) := by
    cases right <;> exact strong.1
  obtain ⟨final, found⟩ := more joined
  refine ⟨by rw [built]; exact final, ?_⟩
  intro colons close closes limit frames nested leading after value left continued
  rw [built] at continued
  have next := found closes limit frames nested leading continued
  rw [← insert_plug_leading strong.1 strong.2.1 nested leading basic right] at next
  rw [written, List.append_assoc, List.cons_append]
  exact finds_mark closes member (fun colon => absurd colon strong.2.2) (applied _ _) next

theorem linksRead_none {colons : Bool} : LinksRead (.none : Links colons) := by
  intro close after rest closing frames tree nested steady
  rw [Links.joined, finish_nil]
  exact finds_closing closing _

/-- A link is grafted on the edge, and the operand that it brings becomes the end. -/
theorem linksRead_cons {colons : Bool} (link : Link) (op : Op) (chars : List Char)
    (parts : List (List Char)) {operand : Operand} {rest links : Links colons}
    (member : (chars, op) ∈ marks) (allowed : op = .colon → colons = true)
    (linkMember : link.op ∈ linkOps)
    (applied : ∀ tree after, Finds (readApplied .unbounded tree op)
      (spaced (parts ++ (operand.parts ++ after)))
      (link.insert (leadingTree operand.leading operand.base) tree)
      (spaced (operand.accesses.parts ++ after)))
    (written : links.parts = chars :: parts ++ (operand.parts ++ rest.parts))
    (built : links.joined = (link, operand.tree) :: rest.joined)
    (accesses : AccessesRead operand.accesses) (more : LinksRead rest) : LinksRead links := by
  intro close after text closing frames tree nested steady
  have grafted := nested_graft linkMember tree nested (priority_le_weakest linkMember)
  obtain ⟨basic, found⟩ := accesses operand.basic_base
  have steadyNext : Steady operand.tree := by
    rw [operand.tree_eq]
    exact steady_leadingTree basic operand.leading
  have tail := more closing _ grafted steadyNext
  rw [operand.tree_eq] at tail
  have next := found closing.closes weakest _ grafted operand.leading tail
  rw [← insert_plug_link linkMember steady nested] at next
  rw [← operand.tree_eq, ← finish_cons nested (priority_le_weakest linkMember), ← built] at next
  have text : links.parts ++ after = chars :: (parts ++ (operand.parts ++ (rest.parts ++ after))) := by
    rw [written]
    simp only [List.cons_append, List.append_assoc]
  rw [text]
  exact finds_mark closing.closes member allowed (applied _ _) next

theorem rowReads_mk {colons : Bool} {first : Operand} {links : Links colons}
    (accesses : AccessesRead first.accesses) (more : LinksRead links) :
    RowReads (.mk first links) := by
  intro op named close after rest closing
  obtain ⟨basic, found⟩ := accesses first.basic_base
  have steady : Steady first.tree := by
    rw [first.tree_eq]
    exact steady_leadingTree basic first.leading
  have tail := more closing [] trivial steady
  rw [plug, first.tree_eq] at tail
  refine ⟨leadingTree first.leading first.base, spaced (first.accesses.parts ++ (links.parts ++ after)),
    ?_, ?_⟩
  · intro text eq
    rw [Row.parts, List.append_assoc] at eq
    exact finds_operand op named first (links.parts ++ after) eq
  · have whole := found closing.closes weakest [] trivial first.leading tail
    rw [← first.tree_eq] at whole
    exact whole

mutual

theorem Row.reads {colons : Bool} : (row : Row colons) → RowReads row
  | .mk first links => rowReads_mk first.accessesRead links.read
termination_by structural row => row

theorem Links.read {colons : Bool} : (links : Links colons) → LinksRead links
  | .none => linksRead_none
  | .between op operand rest =>
    linksRead_cons (.between op.op) op.op (symbolChars op.op) [] (mem_marks_between op) op.allowed
      (List.mem_cons_of_mem _ op.member) (fun tree after => finds_between op operand tree after)
      (by simp only [Links.parts, List.cons_append, List.nil_append])
      rfl operand.accessesRead rest.read
  | .ternary chosen otherwise rest =>
    linksRead_cons (.ternary chosen.tree) .condition ['?'] (chosen.parts ++ [[':']])
      (by decide +kernel) (fun colon => nomatch colon) (List.mem_cons_self ..)
      (fun tree after => by
        have found := finds_ternary chosen.reads otherwise tree after
        simpa only [List.append_assoc, List.cons_append, List.nil_append] using found)
      (by simp only [Links.parts, List.cons_append, List.nil_append, List.append_assoc])
      rfl otherwise.accessesRead rest.read
termination_by structural links => links

theorem Operand.accessesRead : (operand : Operand) → AccessesRead operand.accesses
  | .number _ _ => accessesRead_none
  | .name _ _ accesses => accesses.read
termination_by structural operand => operand

theorem Accesses.read : (accesses : Accesses) → AccessesRead accesses
  | .none => accessesRead_none
  | .member name rest =>
    accessesRead_mark .member ['.'] [name.chars] (some (.name (String.ofList name.chars)))
      (by decide +kernel) (by decide) (fun tree after => finds_member name tree after) rfl
      (fun _ => rfl) rest.read
  | .call arguments rest =>
    accessesRead_mark .call ['('] (arguments.parts ++ [[')']])
      (some (.bracketed .round arguments.tree)) (by decide +kernel) (by decide)
      (fun tree after => by
        have found := finds_call arguments.reads tree after
        simpa only [List.append_assoc, List.cons_append, List.nil_append] using found)
      (by simp only [Accesses.parts, List.cons_append, List.nil_append, List.append_assoc])
      (fun _ => rfl) rest.read
  | .callEmpty rest =>
    accessesRead_mark .call ['('] [[')']] (some (.bracketed .round .noArguments))
      (by decide +kernel) (by decide) (fun tree after => finds_callEmpty tree after) rfl
      (fun _ => rfl) rest.read
  | .subscript key rest =>
    accessesRead_mark .subscript ['['] (key.parts ++ [[']']])
      (some (.bracketed .square key.tree)) (by decide +kernel) (by decide)
      (fun tree after => by
        have found := finds_subscript key.reads tree after
        simpa only [List.append_assoc, List.cons_append, List.nil_append] using found)
      (by simp only [Accesses.parts, List.cons_append, List.nil_append, List.append_assoc])
      (fun _ => rfl) rest.read
  | .step op rest =>
    have strong : ∀ op ∈ trailingOps,
        op.priority = 1 ∧ op.isRightAssoc = false ∧ op ≠ .colon := by decide
    accessesRead_mark op.val (symbolChars op.val) [] none (mem_marks_trailing op)
      (strong op.val op.property) (fun tree after => finds_trailing op tree after) rfl
      (fun _ => rfl) rest.read
termination_by structural accesses => accesses

end

/-- A row is read as a whole, and its tree is the one of precedence climbing. -/
theorem parse_row (row : Row true) :
    ∃ parsed, Expr.parse .unbounded row.text = .ok parsed ∧ parsed.value = row.tree ∧
      parsed.rest = ⟨byteLength row.text, []⟩ := by
  obtain ⟨first, middle, operand, operators⟩ :=
    row.reads .group (by decide) none [] [] .ends
  have text : row.text = joined (row.parts ++ []) := by
    rw [Row.text, intercalate_eq, List.append_nil]
  obtain ⟨found, success, value, left⟩ := operand row.text (.inl text) (.ofText row.text) rfl
  subst value
  obtain ⟨parsed, read, final, finalRest⟩ := operators found.rest left
  refine ⟨parsed.widen found.reached, ?_, final, ?_⟩
  · simp only [Expr.parse, readExpr, success, bind, Except.bind, read]
    rfl
  · -- All of the text has been read, so the offset is its length.
    obtain ⟨whole, rest, pos⟩ := (parsed.widen found.reached).reached
    have done : (parsed.widen found.reached).rest.rest = [] := finalRest
    have all : row.text = whole := by rw [done, List.append_nil] at rest; exact rest
    have offset : (parsed.widen found.reached).rest.pos = byteLength row.text := by
      rw [pos, all]
      exact Nat.zero_add _
    rw [← offset, ← done]

end HtmlTemplate.Precedence
