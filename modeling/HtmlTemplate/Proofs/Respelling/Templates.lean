import HtmlTemplate.Proofs.Respelling.Blocks
import HtmlTemplate.Proofs.Respelling.Dumps
import HtmlTemplate.Proofs.Respelling.Nesting

/-! Templates whose sources differ in blanks: with spaces for tabs they have the same shape, and with other
line terminators they are the same. In both texts the same lines are read at the same depths. -/

namespace HtmlTemplate.Respelling

open CharClass Document Token

variable {style : Style} {first second start stop : Input}

/-! Blocks of code. -/

/-- The spacing at the start of the line that holds a place. -/
theorem outerIndent_respelled (beside : Beside style.spelling first second) (starting : style.margins.Starts start stop)
    (reached : start.Reaches first) (arrived : stop.Reaches second) :
    Respelled style .margin (Line.outerIndent start first) (Line.outerIndent stop second) :=
  (Respelled.textTo starting reached arrived beside).lastLine.taken ⟨rfl, rfl⟩

/-- From the start of a line, blocks are read alike. -/
theorem blocks_of_starts (starting : style.margins.Starts start stop) : Blocks style.spelling start stop :=
  fun reached arrived found beside =>
    block_reads style.margins (outerIndent_respelled beside starting reached arrived) .none nofun
      (beside.advance_isAt found rfl)

/-! Indentation. -/

/-- What the first line that is indented may start with: one tab if spaces are to stand for it. -/
def Style.Begins : Style → List Char → Prop
  | spaces _ _, spacing => spacing = ['\t']
  | breaks _, _ => True

/-- What one step of indentation is in both texts. -/
inductive Units : Style → Option IndentUnit → Option IndentUnit → Prop
  | none (style : Style) : Units style none none
  | tab (wide : Nat) (positive : 0 < wide) : Units (.spaces wide positive) (some .tab) (some (.spaces wide))
  | same (paired : Bool) (unit : Option IndentUnit) : Units (.breaks paired) unit unit

/-- Two outlines that have the same lines at the same depths. -/
structure Counted (style : Style) (outline twin : Outline) : Prop where
  units : Units style outline.unit twin.unit
  parents : twin.parents = outline.parents
  last : twin.last = outline.last

/-- Spacing at the start of a line consists of tabs if spaces are to stand for them. -/
theorem Respelled.tabs {wide : Nat} {positive : 0 < wide} {spacing other : List Char}
    (texts : Respelled (.spaces wide positive) .margin spacing other)
    (blank : ∀ char ∈ spacing, isSpacing char = true) :
    ∃ count, spacing = List.replicate count '\t' ∧ other = List.replicate (count * wide) ' ' := by
  generalize start : Place.margin = place at texts
  induction texts with
  | nil => exact ⟨0, rfl, by rw [Nat.zero_mul]; rfl⟩
  | @cons place char text other fits rest step =>
    subst start
    obtain ⟨here, further⟩ := List.forall_mem_cons.mp blank
    have tab : char = '\t' := by
      refine beq_iff_eq.mp ((Bool.or_eq_true_iff.mp here).resolve_left fun space => ?_)
      rw [beq_iff_eq.mp space] at fits
      cases fits
    subst tab
    obtain ⟨count, rfl, rfl⟩ := step further rfl
    refine ⟨count + 1, rfl, ?_⟩
    change List.replicate wide ' ' ++ _ = _
    rw [← List.replicate_add, Nat.succ_mul, Nat.add_comm]

/-- Without line ends nothing is written anew. -/
theorem Respelled.same_of_breaks {paired : Bool} {place : Place} {text other : List Char}
    (texts : Respelled (.breaks paired) place text other) (flat : ∀ char ∈ text, isLineEnd char = false) :
    other = text := by
  induction texts with
  | nil => rfl
  | cons _ _ step =>
    obtain ⟨within, more⟩ := List.forall_mem_cons.mp flat
    rw [step more, Style.spell, if_neg]
    · rfl
    · rintro rfl
      cases within

theorem all_replicate (count : Nat) (char : Char) :
    (List.replicate count char).all (· == char) = true := by
  rw [List.all_replicate, beq_self_eq_true, ite_self]

theorem ofSpacing_spaces {wide : Nat} (positive : 0 < wide) :
    IndentUnit.ofSpacing? (List.replicate wide ' ') = some (.spaces wide) := by
  have other : ((List.replicate wide ' ').all (· == '\t')) = false := by
    rw [List.all_replicate, if_neg (Nat.ne_of_gt positive)]
    rfl
  rw [IndentUnit.ofSpacing?, other, all_replicate, List.length_replicate]
  rfl

theorem depth_tabs (count : Nat) : IndentUnit.tab.depth? (List.replicate count '\t') = some count := by
  rw [IndentUnit.depth?, all_replicate, List.length_replicate]
  rfl

theorem depth_spaces {wide : Nat} (positive : 0 < wide) (count : Nat) :
    (IndentUnit.spaces wide).depth? (List.replicate (count * wide) ' ') = some count := by
  rw [IndentUnit.depth?, all_replicate, List.length_replicate, Nat.mul_div_cancel count positive]
  rfl

/-- A line is as deep in both texts. -/
theorem measure_reads {outline twin : Outline} (counted : Counted style outline twin) {spacing other : List Char}
    (texts : Respelled style .margin spacing other) (blank : ∀ char ∈ spacing, isSpacing char = true)
    (begins : outline.unit = none → spacing ≠ [] → style.Begins spacing) :
    Both (· = ·) (fun x y => y.1 = x.1 ∧ Units style x.2 y.2) (outline.measure spacing) (twin.measure other) := by
  obtain ⟨units, -, -⟩ := counted
  unfold Outline.measure
  generalize outline.unit = unit at units begins
  generalize twin.unit = another at units
  by_cases bare : spacing = []
  · rw [bare, texts.nil_iff.mpr bare]
    exact .ok ⟨rfl, units⟩
  · have filled : other ≠ [] := fun none => bare (texts.nil_iff.mp none)
    rw [if_neg (by rwa [List.isEmpty_iff]), if_neg (by rwa [List.isEmpty_iff])]
    cases style with
    | breaks paired =>
      obtain rfl := texts.same_of_breaks fun char member => isLineEnd_of_isSpacing (blank char member)
      have equal : another = unit := by cases units <;> rfl
      rw [equal]
      cases unit with
      | none =>
        dsimp only
        cases IndentUnit.ofSpacing? other with
        | none => exact .error rfl
        | some unit => exact .ok ⟨rfl, .same paired _⟩
      | some unit =>
        dsimp only
        cases unit.depth? other with
        | none => exact .error rfl
        | some depth => exact .ok ⟨rfl, .same paired _⟩
    | spaces wide positive =>
      obtain ⟨count, rfl, rfl⟩ := texts.tabs blank
      cases units with
      | none =>
        have one : count = 1 := by
          have length := congrArg List.length (begins rfl bare : List.replicate count '\t' = ['\t'])
          rwa [List.length_replicate] at length
        subst one
        rw [Nat.one_mul, ofSpacing_spaces positive]
        exact .ok ⟨rfl, .tab wide positive⟩
      | tab =>
        dsimp only
        rw [depth_tabs, depth_spaces positive]
        exact .ok ⟨rfl, .tab wide positive⟩

theorem open_rel {outline twin : Outline} (counted : Counted style outline twin) (depth : Nat) :
    Option.Rel (Counted style) (outline.open? depth) (twin.open? depth) := by
  obtain ⟨units, parents, last⟩ := counted
  have same : twin.depth = outline.depth := congrArg List.length parents
  unfold Outline.open?
  rw [same, parents, last]
  split
  · exact .some ⟨units, rfl, rfl⟩
  · split
    · cases outline.last with
      | none => exact .none
      | some => exact .some ⟨units, rfl, rfl⟩
    · exact .none

/-- A line has the same place in both texts. -/
theorem enter_reads {outline twin : Outline} (counted : Counted style outline twin) {spacing other : List Char}
    (texts : Respelled style .margin spacing other) (blank : ∀ char ∈ spacing, isSpacing char = true)
    (begins : outline.unit = none → spacing ≠ [] → style.Begins spacing) :
    Both (· = ·) (Counted style) (outline.enter spacing) (twin.enter other) := by
  refine .bind (measure_reads counted texts blank begins) fun x y ⟨depth, units⟩ => ?_
  have counts : Counted style { outline with unit := x.2 } { twin with unit := y.2 } :=
    ⟨units, counted.parents, counted.last⟩
  have opened := open_rel counts x.1
  dsimp only
  rw [depth]
  generalize Outline.open? { outline with unit := x.2 } x.1 = entered at opened
  generalize Outline.open? { twin with unit := y.2 } x.1 = another at opened
  cases opened with
  | none => exact .error rfl
  | some counted => exact .ok counted

theorem rows_reads {outline twin : Outline} (counted : Counted style outline twin) {first second : Input}
    (starting : style.margins.Starts first second)
    (begins : outline.unit = none → ∀ spacing ∈ (measured outline first).find? (!·.isEmpty), style.Begins spacing) :
    Both (fun error other => other.fault = error.fault) (List.Forall₂ (Matches style.spelling))
      (readRows outline first) (readRows twin second) := by
  have beside := starting.beside
  have content := beside.skipSpacing
  rw [readRows_eq outline, readRows_eq twin, beside.atEnd, content.atLineEnd]
  rw [measured_eq] at begins
  by_cases ended : first.atEnd = true
  · rw [if_pos ended, if_pos ended]
    exact .ok .nil
  rw [if_neg ended, if_neg ended]
  rw [if_neg ended] at begins
  have nonempty := size_pos_of_atEnd ended
  by_cases blank : first.skipSpacing.atLineEnd = true
  · rw [if_pos blank, if_pos blank]
    rw [if_pos blank] at begins
    have := size_finishLine_lt_of_reaches nonempty (Input.reaches_skipSpacing first)
    exact rows_reads counted (finishLine_starts _ content (.nil _)) begins
  rw [if_neg blank, if_neg blank]
  rw [if_neg blank] at begins
  have spacing : Respelled style .margin (first.takeWhile isSpacing) (second.takeWhile isSpacing) :=
    style.margins.taken starting
  have enters := enter_reads counted spacing isSpacing_of_mem_takeWhile fun none filled => by
    refine begins none _ ?_
    rw [List.find?_cons, List.isEmpty_eq_false_iff.mpr filled]
    rfl
  cases measures : outline.enter (first.takeWhile isSpacing) with
  | error fault =>
    rw [measures] at enters
    generalize twin.enter (second.takeWhile isSpacing) = other at enters
    cases enters with
    | error same => exact .error same.symm
  | ok entered =>
    rw [measures] at enters
    generalize twin.enter (second.takeWhile isSpacing) = other at enters
    cases enters with
    | @ok _ another counts =>
      dsimp only
      refine .bind (row_reads counts.parents (blocks_of_starts starting) content (Input.reaches_skipSpacing first)
        (Input.reaches_skipSpacing second)).known fun x y ⟨row, one, two⟩ => ?_
      have := size_finishLine_lt_of_reaches nonempty ((Input.reaches_skipSpacing first).trans x.reached)
      have nests := congrArg some (nestsText_same (innermost_akin row.values))
      have counted : Counted style { entered with last := some x.value.innermost.nestsText }
        { another with last := some y.value.innermost.nestsText } := ⟨counts.units, counts.parents, nests⟩
      refine .bind (rows_reads counted (finishLine_starts _ row.beside (.nil _)) fun none => ?_)
        fun rows others more => .ok (.cons row.values more)
      obtain ⟨unfixed, bare⟩ := bare_of_enter measures none
      have later := begins unfixed
      rw [measures, bare] at later
      dsimp only at later
      rw [one] at later
      exact later
termination_by first.size

/-! Sources. -/

theorem ofSource_reads {source other : List Char} (texts : Respelled style .margin source other)
    (begins : ∀ spacing ∈ (measured .start (.ofText source)).find? (!·.isEmpty), style.Begins spacing) :
    Both (fun error other => other.fault = error.fault)
      (fun root twin => List.Forall₂ (Akin style.spelling) root.children twin.children) (Token.ofSource source)
      (Token.ofSource other) := by
  have start : style.margins.Starts (.ofText source) (.ofText other) := texts
  refine .bind (rows_reads ⟨.none style, rfl, rfl⟩ start fun _ => begins).known
    fun rows twins ⟨matched, read, _⟩ => .ok ?_
  have nested := nest_akin matched (readRows_headed .start _ read)
  exact List.forall₂_map_left_iff.mpr (List.forall₂_map_right_iff.mpr (nested.imp fun _ _ both => both.2))

/-! Writing texts anew. -/

/-- A text with other blanks. -/
def Style.rewrite (style : Style) : Place → List Char → List Char
  | _, [] => []
  | place, char :: text => style.spell place char ++ rewrite style (place.next char) text

/-- Whether a text has only blanks that others can stand for. -/
def Style.allows (style : Style) : Place → List Char → Bool
  | _, [] => true
  | place, char :: text => style.fits place char && allows style (place.next char) text

theorem respelled_rewrite {place : Place} {text : List Char} (allows : style.allows place text = true) :
    Respelled style place text (style.rewrite place text) := by
  induction text generalizing place with
  | nil => exact .nil place
  | cons char text step =>
    obtain ⟨fits, rest⟩ := Bool.and_eq_true_iff.mp allows
    exact .cons fits (step rest)

/-- Lines that start with tabs alone. -/
theorem allows_spaces {wide : Nat} (positive : 0 < wide) {place : Place} {text : List Char}
    (line : place = .margin → ∀ line ∈ (text.splitOnP isLineEnd).head?, ' ' ∉ line.takeWhile isSpacing)
    (lines : ∀ line ∈ (text.splitOnP isLineEnd).tail, ' ' ∉ line.takeWhile isSpacing) :
    (Style.spaces wide positive).allows place text = true := by
  induction text generalizing place with
  | nil => rfl
  | cons char text step =>
    rw [List.splitOnP_cons_eq_if_modifyHead] at line lines
    obtain ⟨head, others, parts⟩ := List.exists_cons_of_ne_nil (List.splitOnP_ne_nil isLineEnd text)
    rw [parts] at line lines step
    rw [Style.allows, Bool.and_eq_true]
    cases ends : isLineEnd char with
    | true =>
      rw [ends, if_pos rfl] at lines
      obtain ⟨first, further⟩ := List.forall_mem_cons.mp lines
      have other : (char != ' ') = true := by
        refine bne_iff_ne.mpr ?_
        rintro rfl
        cases ends
      refine ⟨by rw [Style.fits, other, Bool.or_true], step (fun _ line member => ?_) further⟩
      cases member
      exact first
    | false =>
      rw [ends, if_neg Bool.false_ne_true] at line lines
      have begins (margin : place = .margin) : ' ' ∉ (char :: head).takeWhile isSpacing := line margin _ rfl
      refine ⟨?_, step (fun next line member => ?_) lines⟩
      · refine Bool.or_eq_true_iff.mpr (Classical.or_iff_not_imp_left.mpr fun edge => bne_iff_ne.mpr ?_)
        rintro rfl
        have margin : place = .margin := by
          by_contra inside
          exact edge (bne_iff_ne.mpr inside)
        exact begins margin List.mem_cons_self
      · cases member
        by_cases inside : isSpacing char = true ∧ place = .margin
        · have spaced := begins inside.2
          rw [List.takeWhile_cons, if_pos inside.1] at spaced
          exact fun member => spaced (List.mem_cons_of_mem _ member)
        · exact absurd next (Place.next_ne_margin ends fun spacing margin => inside ⟨spacing, margin⟩)

theorem Place.escaped_of_next {place : Place} {char : Char} (escaped : place.next char = .escaped) : char = '\\' := by
  unfold next at escaped
  split at escaped
  · cases escaped
  · split at escaped
    · split at escaped <;> cases escaped
    · split at escaped
      · assumption
      · cases escaped

/-- Lines without carriage returns, none of which ends in a backslash. -/
theorem allows_breaks (paired : Bool) {place : Place} {text : List Char} (carriage : '\r' ∉ text)
    (continued : ¬ ['\\', '\n'] <:+: text) (begins : place = .escaped → text.head? ≠ some '\n') :
    (Style.breaks paired).allows place text = true := by
  induction text generalizing place with
  | nil => rfl
  | cons char text step =>
    have newline (escaped : place = .escaped) : char ≠ '\n' := fun same => begins escaped (congrArg some same)
    rw [Style.allows, Bool.and_eq_true, Style.fits, Bool.and_eq_true, Bool.or_eq_true, bne_iff_ne, bne_iff_ne,
      bne_iff_ne]
    refine ⟨⟨fun same => carriage (same ▸ List.mem_cons_self), ?_⟩,
      step (fun member => carriage (List.mem_cons_of_mem _ member))
        (fun inside => continued (inside.trans (List.suffix_cons char text).isInfix)) fun escaped first => ?_⟩
    · exact Classical.or_iff_not_imp_left.mpr fun escaped => newline (not_not.mp escaped)
    · obtain ⟨more, rfl⟩ := List.head?_eq_some_iff.mp first
      rw [Place.escaped_of_next escaped] at continued
      exact continued (List.prefix_append ['\\', '\n'] more).isInfix

theorem rewrite_breaks (paired : Bool) (place : Place) (text : List Char) :
    (Style.breaks paired).rewrite place text =
      text.flatMap fun char => if char = '\n' then '\r' :: (if paired then ['\n'] else []) else [char] := by
  induction text generalizing place with
  | nil => rfl
  | cons char text step => rw [Style.rewrite, step, List.flatMap_cons]; rfl

/-! Whole templates. -/

/-- Spaces may stand for tabs. If lines start with tabs alone, the first one that is indented with one tab, and
nothing quoted spans lines, then with some spaces for each of these tabs the source is a template of the same
shape, or is refused with the same message. -/
theorem spaces_for_tabs (options : TemplateOptions) {wide : Nat} (positive : 0 < wide) {source : List Char}
    (tabs : ∀ line ∈ source.splitOnP isLineEnd, ∀ char ∈ line.takeWhile isSpacing, char = '\t')
    (single : ∀ spacing ∈ (measured .start (.ofText source)).find? (!·.isEmpty), spacing = ['\t'])
    (unbroken : ∀ root, Token.ofSource source = .ok root → root.isUnbroken = true) :
    Both (fun error other => other.message = error.message)
      (fun template other => other.describe false = template.describe false)
      (Template.ofSource options source)
      (Template.ofSource options ((Style.spaces wide positive).rewrite .margin source)) := by
  have spaceless {line : List Char} (member : line ∈ source.splitOnP isLineEnd) : ' ' ∉ line.takeWhile isSpacing :=
    fun space => absurd (tabs line member ' ' space) (by decide)
  have allowed : (Style.spaces wide positive).allows .margin source = true :=
    allows_spaces positive (fun _ line first => spaceless (List.mem_of_mem_head? first))
      fun line later => spaceless (List.mem_of_mem_tail later)
  exact template_alike options (ofSource_reads (respelled_rewrite allowed) single) unbroken

/-- A list with attributes, code and text that go on in other lines. -/
def indented : List Char :=
  "ul\n\tli(a=1\n\t\tb=2)\n\t\t| one\n\t-\n\t\tx = 1 +\n\t\t2\n\tp.\n\t\tsome\n\n\t\t\ttext".toList

theorem indented_tabs :
    (indented.splitOnP isLineEnd).all (fun line => (line.takeWhile isSpacing).all (· == '\t')) = true := by
  unfold indented
  rw [String.toList_ofList]
  decide +kernel

theorem indented_single : (measured .start (.ofText indented)).find? (!·.isEmpty) = some ['\t'] := by
  unfold indented
  rw [String.toList_ofList]
  decide +kernel

theorem indented_unbroken {root : Token} (read : Token.ofSource indented = .ok root) : root.isUnbroken = true := by
  have whole : (Token.ofSource indented).toOption.map Token.isUnbroken = some true := by
    unfold indented
    rw [String.toList_ofList]
    decide +kernel
  rw [read] at whole
  exact Option.some.inj whole

theorem indented_spaced :
    (∀ line ∈ indented.splitOnP isLineEnd, ∀ char ∈ line.takeWhile isSpacing, char = '\t') ∧
      (∀ spacing ∈ (measured .start (.ofText indented)).find? (!·.isEmpty), spacing = ['\t']) ∧
      (∀ root, Token.ofSource indented = .ok root → root.isUnbroken = true) ∧
      Both (fun error other => other.message = error.message)
        (fun template other => other.describe false = template.describe false)
        (Template.ofSource { pretty := false, stopOnError := false } indented)
        (Template.ofSource { pretty := false, stopOnError := false }
          ((Style.spaces 3 (by decide)).rewrite .margin indented)) := by
  have tabs : ∀ line ∈ indented.splitOnP isLineEnd, ∀ char ∈ line.takeWhile isSpacing, char = '\t' :=
    fun line member char inside =>
      beq_iff_eq.mp (List.all_eq_true.mp (List.all_eq_true.mp indented_tabs line member) char inside)
  have single : ∀ spacing ∈ (measured .start (.ofText indented)).find? (!·.isEmpty), spacing = ['\t'] := by
    rw [indented_single]
    rintro _ ⟨⟩
    rfl
  exact ⟨tabs, single, fun _ => indented_unbroken, spaces_for_tabs _ _ tabs single fun _ => indented_unbroken⟩

/-- Line terminators are alike. In a source without carriage returns, in which no line ends in a backslash and
nothing quoted spans lines, all newlines may be replaced by other terminators: the source is the same template,
or is refused with the same message. -/
theorem terminators_alike (options : TemplateOptions) {source ending : List Char}
    (ends : ending = ['\r', '\n'] ∨ ending = ['\r']) (carriage : '\r' ∉ source)
    (continued : ¬ ['\\', '\n'] <:+: source)
    (unbroken : ∀ root, Token.ofSource source = .ok root → root.isUnbroken = true) :
    Both (fun error other => other.message = error.message)
      (fun template other => other.describe true = template.describe true)
      (Template.ofSource options source)
      (Template.ofSource options (source.flatMap fun char => if char = '\n' then ending else [char])) := by
  obtain ⟨paired, rfl⟩ : ∃ paired, ending = '\r' :: if paired = true then ['\n'] else [] := by
    rcases ends with rfl | rfl
    · exact ⟨true, rfl⟩
    · exact ⟨false, rfl⟩
  have allowed : (Style.breaks paired).allows .margin source = true := allows_breaks paired carriage continued nofun
  rw [← rewrite_breaks paired .margin source]
  exact template_alike options (ofSource_reads (respelled_rewrite allowed) fun _ _ => trivial) unbroken

theorem indented_ended :
    (['\r'] = ['\r', '\n'] ∨ ['\r'] = ['\r']) ∧ '\r' ∉ indented ∧ ¬ ['\\', '\n'] <:+: indented ∧
      (∀ root, Token.ofSource indented = .ok root → root.isUnbroken = true) ∧
      Both (fun error other => other.message = error.message)
        (fun template other => other.describe true = template.describe true)
        (Template.ofSource { pretty := true, stopOnError := false } indented)
        (Template.ofSource { pretty := true, stopOnError := false }
          (indented.flatMap fun char => if char = '\n' then ['\r'] else [char])) := by
  have carriage : '\r' ∉ indented := by decide +kernel
  have continued : ¬ ['\\', '\n'] <:+: indented := by decide +kernel
  exact ⟨.inr rfl, carriage, continued, fun _ => indented_unbroken,
    terminators_alike _ (.inr rfl) carriage continued fun _ => indented_unbroken⟩

/-- With other blanks the list has the same shape. What is quoted keeps its own. -/
example :
    let dump (source : List Char) (withText : Bool) :=
      (Template.ofSource { pretty := false, stopOnError := false } source).toOption.map (·.describe withText)
    let spaced := (Style.spaces 3 (by decide)).rewrite .margin
    let ended (source : List Char) := source.flatMap fun char => if char = '\n' then ['\r'] else [char]
    dump (spaced indented) false = some "Block\n  Text\n  Code (= x (+ 1 2))\n  Text\n" ∧
      dump (ended "p= 'a\nb'".toList) true = some "Block\n  Text \"<p>a\\rb</p>\"\n" ∧
      dump "p= 'a\nb'".toList true = some "Block\n  Text \"<p>a\\nb</p>\"\n" := by
  unfold indented
  rw [String.toList_ofList]
  decide +kernel

end HtmlTemplate.Respelling
