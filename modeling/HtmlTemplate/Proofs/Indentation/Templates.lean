import HtmlTemplate.Proofs.Content.Shapes
import HtmlTemplate.Proofs.Indentation.Rows

/-! How the lines of a template are nested. Every line is nested in the closest line before it that is less deep.
What counts is how many whole steps a line is indented, where the first indented line is indented by one step:
spacing that is longer by less than a step nests nothing. -/

namespace HtmlTemplate

namespace Token

mutual

/-- A line and the lines nested in it, in their order, each with the number of the line that it is
nested in. `number` is the number of the first. -/
def placed (parent : Option Nat) (number : Nat) : Token → List (Option Nat × Token)
  | ⟨kind, span, text, expr, children⟩ =>
    (parent, ⟨kind, span, text, expr, children⟩) ::
      match kind, children with
      | .line, _ :: lines => placedAll (some number) (number + 1) lines
      | _, lines => placedAll (some number) (number + 1) lines

def placedAll (parent : Option Nat) (number : Nat) : List Token → List (Option Nat × Token)
  | [] => []
  | token :: rest =>
    if token.kind = .eachVariable then placedAll parent number rest
    else placed parent number token ++
      placedAll parent (number + (placed parent number token).length) rest

end

/-- The lines of a template in their order. -/
def lines (root : Token) : List Token := (placedAll none 0 root.children).map Prod.snd

/-- For each line of a template, the number of the line it is nested in. -/
def parents (root : Token) : List (Option Nat) := (placedAll none 0 root.children).map Prod.fst

theorem placed_eq (parent : Option Nat) (number : Nat) (token : Token) :
    token.placed parent number = (parent, token) :: placedAll (some number) (number + 1) token.nested := by
  obtain ⟨kind, span, text, expr, children⟩ := token
  cases kind with
  | line =>
    cases children with
    | nil => rfl
    | cons => rfl
  | _ => rfl

theorem placedAll_append (parent : Option Nat) (number : Nat) (first second : List Token) :
    placedAll parent number (first ++ second) = placedAll parent number first ++
      placedAll parent (number + (placedAll parent number first).length) second := by
  induction first generalizing number with
  | nil => rfl
  | cons token first step =>
    rw [List.cons_append, placedAll, placedAll]
    split
    · exact step number
    · rw [step, List.append_assoc, List.length_append, Nat.add_assoc]

/-- Variables of a loop are no lines. -/
theorem placedAll_variables {parts : List Token} (named : ∀ part ∈ parts, part.kind = .eachVariable)
    (parent : Option Nat) (number : Nat) : placedAll parent number parts = [] := by
  induction parts with
  | nil => rfl
  | cons part rest step =>
    obtain ⟨first, others⟩ := List.forall_mem_cons.mp named
    rw [placedAll, if_pos first, step others]

/-- A line by itself. -/
def alone (token : Token) : Token := token.withChildren []

theorem Headed.nested_addChildren {token : Token} (headed : Headed token) (lines : List Token) :
    (token.addChildren lines).nested = token.nested ++ lines := by
  have formed := headed.formed
  change (if token.kind = .line then (token.children ++ lines).tail else token.children ++ lines) = _
  unfold nested
  cases formed with
  | markup is all => rw [if_pos is, if_pos is, all, List.cons_append, List.tail_cons, List.tail_cons]
  | statement asks =>
    have other : token.kind ≠ .line := by
      intro is
      rw [is] at asks
      cases asks
    rw [if_neg other, if_neg other]
  | named is => exact absurd is headed.line

/-- Only what is nested in a line later is placed below it. -/
theorem Headed.placed_addChildren {token : Token} (headed : Headed token) (lines : List Token)
    (parent : Option Nat) (number : Nat) :
    (token.addChildren lines).placed parent number =
      (parent, token.addChildren lines) :: placedAll (some number) (number + 1) lines := by
  rw [placed_eq, headed.nested_addChildren, placedAll_append, placedAll_variables headed.bare]
  rfl

end Token

namespace Row

open Token

/-! Depths. -/

/-- The number of the closest of some lines that is less deep. The lines come with their depths, the
last one first. -/
def closest (before : List (Nat × Nat)) (depth : Nat) : Option Nat :=
  (before.find? fun line => line.1 < depth).map Prod.snd

/-- For lines with some depths, the number of the closest line before each that is less deep. -/
def closer (before : List (Nat × Nat)) (number : Nat) : List Nat → List (Option Nat)
  | [] => []
  | depth :: rest => closest before depth :: closer ((depth, number) :: before) (number + 1) rest

theorem closest_deeper (before : List (Nat × Nat)) (number : Nat) {shallow depth : Nat}
    (deeper : shallow < depth) : closest ((shallow, number) :: before) depth = some number := by
  simp [closest, deeper]

theorem closest_shallower (before : List (Nat × Nat)) (number : Nat) {deep depth : Nat}
    (shallower : depth ≤ deep) : closest ((deep, number) :: before) depth = closest before depth := by
  simp [closest, Nat.not_lt.mpr shallower]

theorem closest_lt {before : List (Nat × Nat)} {number : Nat} (earlier : ∀ line ∈ before, line.2 < number)
    (depth : Nat) : closest before depth ≠ some number := by
  intro found
  obtain ⟨line, first, rfl⟩ := Option.map_eq_some_iff.mp found
  exact Nat.lt_irrefl _ (earlier line (List.mem_of_find?_eq_some first))

/-- Of two lines one after the other, the second is nested in the first if it is deeper, and beside it
if it is as deep. -/
theorem closer_next {before : List (Nat × Nat)} {number : Nat} (earlier : ∀ line ∈ before, line.2 < number)
    {depths : List Nat} {index first second : Nat} (one : depths[index]? = some first)
    (next : depths[index + 1]? = some second) :
    ((closer before number depths)[index + 1]? = some (some (number + index)) ↔ first < second) ∧
      (first = second →
        (closer before number depths)[index + 1]? = (closer before number depths)[index]?) := by
  induction depths generalizing before number index with
  | nil => cases one
  | cons shallow rest step =>
    have known : ∀ line ∈ (shallow, number) :: before, line.2 < number + 1 := by
      refine List.forall_mem_cons.mpr ⟨Nat.lt_succ_self number, fun line member => ?_⟩
      exact Nat.lt_succ_of_lt (earlier line member)
    cases index with
    | zero =>
      cases one
      cases rest with
      | nil => cases next
      | cons deep rest =>
        cases next
        change (some (closest ((first, number) :: before) second) = some (some number) ↔ first < second) ∧
          (first = second →
            some (closest ((first, number) :: before) second) = some (closest before first))
        by_cases deeper : first < second
        · rw [closest_deeper before number deeper]
          exact ⟨iff_of_true rfl deeper, fun same => absurd deeper (Nat.not_lt.mpr (Nat.le_of_eq same.symm))⟩
        · rw [closest_shallower before number (Nat.not_lt.mp deeper)]
          refine ⟨iff_of_false (fun same => ?_) deeper, fun same => by rw [same]⟩
          exact closest_lt earlier second (Option.some.inj same)
    | succ index =>
      have further := step known one next
      rw [Nat.add_right_comm, Nat.add_assoc] at further
      exact further

/-! Lines in a tree. -/

/-- The lines of some trees, of which those at the top are nested in the closest line before them that
is less deep. -/
def spread (before : List (Nat × Nat)) (number : Nat) : List (Nat × Token) → List (Option Nat × Token)
  | [] => []
  | (depth, token) :: rest =>
    token.placed (closest before depth) number ++
      spread before (number + (token.placed (closest before depth) number).length) rest

theorem spread_append (before : List (Nat × Nat)) (number : Nat) (first second : List (Nat × Token)) :
    spread before number (first ++ second) = spread before number first ++
      spread before (number + (spread before number first).length) second := by
  induction first generalizing number with
  | nil => rfl
  | cons line first step =>
    simp only [List.cons_append, spread, step, List.append_assoc, List.length_append, Nat.add_assoc]

/-- Lines that are deeper than the line before them are nested in it. -/
theorem spread_deeper (before : List (Nat × Nat)) (above number : Nat) {depth : Nat}
    {lines : List (Nat × Token)}
    (deeper : ∀ line ∈ lines, depth < line.1 ∧ line.2.kind ≠ .eachVariable) :
    spread ((depth, above) :: before) number lines = placedAll (some above) number (lines.map Prod.snd) := by
  induction lines generalizing number with
  | nil => rfl
  | cons line lines step =>
    obtain ⟨⟨deep, other⟩, rest⟩ := List.forall_mem_cons.mp deeper
    rw [spread, List.map_cons, placedAll, if_neg other, closest_deeper before above deep, step _ rest]

/-- Lines that are not deeper than a line are nested in what comes before it. -/
theorem spread_shallower (before : List (Nat × Nat)) (above number : Nat) {depth : Nat}
    {lines : List (Nat × Token)} (shallower : ∀ line ∈ lines, line.1 ≤ depth) :
    spread ((depth, above) :: before) number lines = spread before number lines := by
  induction lines generalizing number with
  | nil => rfl
  | cons line lines step =>
    obtain ⟨shallow, rest⟩ := List.forall_mem_cons.mp shallower
    rw [spread, spread, closest_shallower before above shallow, step _ rest]

/-- At the top the lines are not deeper one after the other. -/
theorem spread_top (number : Nat) {lines : List (Nat × Token)}
    (headed : ∀ line ∈ lines, line.2.kind ≠ .eachVariable) :
    spread [] number lines = placedAll none number (lines.map Prod.snd) := by
  induction lines generalizing number with
  | nil => rfl
  | cons line lines step =>
    obtain ⟨other, rest⟩ := List.forall_mem_cons.mp headed
    rw [spread, List.map_cons, placedAll, if_neg other, step _ rest]
    rfl

theorem dropWhile_shallower {depth : Nat} {lines : List (Nat × Token)}
    (sorted : lines.Pairwise fun line next => next.1 ≤ line.1) :
    ∀ line ∈ lines.dropWhile fun line => depth < line.1, line.1 ≤ depth := by
  induction lines with
  | nil => nofun
  | cons line lines step =>
    obtain ⟨first, rest⟩ := List.pairwise_cons.mp sorted
    rw [List.dropWhile_cons]
    split
    · exact step rest
    · rename_i shallow
      have shallow : line.1 ≤ depth := by simpa using shallow
      exact List.forall_mem_cons.mpr ⟨shallow, fun next member => Nat.le_trans (first next member) shallow⟩

theorem nest_sorted (rows : List Row) : (nest rows).Pairwise fun line next => next.1 ≤ line.1 := by
  induction rows with
  | nil => exact .nil
  | cons row rows step =>
    exact .cons (dropWhile_shallower step) (step.sublist (List.dropWhile_sublist _))

theorem nest_kind {rows : List Row} (headed : ∀ row ∈ rows, row.Headed) :
    ∀ line ∈ nest rows, line.2.kind ≠ .eachVariable := by
  induction rows with
  | nil => nofun
  | cons row rows step =>
    obtain ⟨first, rest⟩ := List.forall_mem_cons.mp headed
    refine List.forall_mem_cons.mpr ⟨?_, fun line member => ?_⟩
    · cases row.chained with
      | nil => exact first.line.line
      | cons => exact first.line.line
    · exact step rest line ((List.dropWhile_suffix _).subset member)

/-- Lines that are not chained are nested in the closest line before them that is less deep. -/
theorem spread_nest {rows : List Row} (headed : ∀ row ∈ rows, row.Headed)
    (unchained : ∀ row ∈ rows, row.chained = []) (before : List (Nat × Nat)) (number : Nat) :
    (spread before number (nest rows)).map Prod.fst = closer before number (rows.map depth) ∧
      (spread before number (nest rows)).map (fun line => line.2.alone) =
        rows.map fun row => row.line.alone := by
  induction rows generalizing before number with
  | nil => exact ⟨rfl, rfl⟩
  | cons row rows step =>
    obtain ⟨first, others⟩ := List.forall_mem_cons.mp headed
    obtain ⟨single, rest⟩ := List.forall_mem_cons.mp unchained
    obtain ⟨parents, lines⟩ := step others rest ((row.depth, number) :: before) (number + 1)
    let nested := (nest rows).takeWhile fun line => row.depth < line.1
    let beside := (nest rows).dropWhile fun line => row.depth < line.1
    have kinds := nest_kind others
    have deeper : ∀ line ∈ nested, row.depth < line.1 ∧ line.2.kind ≠ .eachVariable := by
      intro line member
      exact ⟨of_decide_eq_true (List.all_eq_true.mp List.all_takeWhile line member),
        kinds line ((List.takeWhile_prefix _).subset member)⟩
    have together : spread before number (nest (row :: rows)) =
        (closest before row.depth, row.line.addChildren (nested.map Prod.snd)) ::
          spread ((row.depth, number) :: before) (number + 1) (nest rows) := by
      have whole : nest rows = nested ++ beside := List.takeWhile_append_dropWhile.symm
      have below := spread_deeper before number (number + 1) deeper
      have linked : nest (row :: rows) =
          (row.depth, row.line.addChildren (nested.map Prod.snd)) :: beside := by
        rw [nest, single, link]
      rw [linked, spread, first.line.placed_addChildren, whole, spread_append, below,
        spread_shallower before number _ (dropWhile_shallower (nest_sorted rows))]
      simp only [List.cons_append, List.length_cons, Nat.add_assoc, Nat.add_comm]
      rfl
    rw [together]
    exact ⟨congrArg (closest before row.depth :: ·) parents, congrArg (row.line.alone :: ·) lines⟩

end Row

/-! Spacing. -/

namespace Indentation

open CharClass Token Row Document

/-- The spacing before each line of a template. -/
def spacings (source : List Char) (root : Token) : List (List Char) := root.lines.map (Token.spacing source)

/-- How many whole steps each line of a template is indented. -/
def depths (source : List Char) (root : Token) : List Nat :=
  (spacings source root).map fun spacing => spacing.length / step (spacings source root)

/-- No line of a source is chained to another one. -/
def Unchained (source : List Char) : Prop :=
  ∀ rows, readRows .start (.ofText source) = .ok rows → ∀ row ∈ rows, row.chained = []

/-- Each line is nested in the closest line before it that is less deep. -/
structure Nests (parents : List (Option Nat)) (depths : List Nat) : Prop where
  closest : parents = closer [] 0 depths
  /-- Of two lines one after the other, the second is nested in the first if it is deeper, and beside it
  if it is as deep. -/
  next : ∀ index first second, depths[index]? = some first → depths[index + 1]? = some second →
    (parents[index + 1]? = some (some index) ↔ first < second) ∧
      (first = second → parents[index + 1]? = parents[index]?)

theorem nests_of_closer {parents : List (Option Nat)} {depths : List Nat}
    (closest : parents = closer [] 0 depths) : Nests parents depths := by
  subst closest
  refine ⟨rfl, fun index first second one next => ?_⟩
  have none : ∀ line ∈ ([] : List (Nat × Nat)), line.2 < 0 := List.forall_mem_nil _
  have known := closer_next none one next
  rwa [Nat.zero_add] at known

/-- The lines of a tree are those of the rows, each nested in the closest one that is less deep. -/
theorem lines_rows {source : List Char} {root : Token} {rows : List Row}
    (read : readRows .start (.ofText source) = .ok rows) (is : Token.ofSource source = .ok root)
    (unchained : ∀ row ∈ rows, row.chained = []) :
    root.parents = closer [] 0 (rows.map Row.depth) ∧
      root.lines.map alone = rows.map fun row => row.line.alone := by
  have headed := readRows_headed .start _ read
  have children : root.children = (nest rows).map Prod.snd := by
    unfold Token.ofSource at is
    rw [read] at is
    cases is
    rfl
  have placed : placedAll none 0 root.children = spread [] 0 (nest rows) := by
    rw [children, spread_top 0 (nest_kind headed)]
  obtain ⟨parents, lines⟩ := spread_nest headed unchained [] 0
  unfold Token.parents Token.lines
  rw [placed, List.map_map]
  exact ⟨parents, lines⟩

theorem closest_scale {wide : Nat} (positive : 0 < wide) (before : List (Nat × Nat)) (depth : Nat) :
    closest (before.map fun line => (line.1 * wide, line.2)) (depth * wide) = closest before depth := by
  unfold closest
  rw [List.find?_map, Option.map_map]
  have same : ((fun line : Nat × Nat => decide (line.1 < depth * wide)) ∘
      fun line : Nat × Nat => (line.1 * wide, line.2)) = fun line => decide (line.1 < depth) := by
    funext line
    simp [Nat.mul_lt_mul_right positive]
  rw [same]
  rfl

/-- Only the order of the depths counts. -/
theorem closer_scale {wide : Nat} (positive : 0 < wide) (before : List (Nat × Nat)) (number : Nat)
    (depths : List Nat) :
    closer (before.map fun line => (line.1 * wide, line.2)) number (depths.map (· * wide)) =
      closer before number depths := by
  induction depths generalizing before number with
  | nil => rfl
  | cons depth depths step =>
    rw [List.map_cons, closer, closer, closest_scale positive]
    exact congrArg _ (step ((depth, number) :: before) (number + 1))

/-- Where spacing is in whole steps, its length counts. -/
theorem closer_whole {wide : Nat} {lengths : List Nat} (whole : ∀ length ∈ lengths, wide ∣ length) :
    closer [] 0 (lengths.map (· / wide)) = closer [] 0 lengths := by
  rcases Nat.eq_zero_or_pos wide with rfl | positive
  · have none : lengths.map (· / 0) = lengths := by
      refine (List.map_congr_left fun length member => ?_).trans (List.map_id lengths)
      rw [Nat.div_zero, Nat.eq_zero_of_zero_dvd (whole length member)]
      rfl
    rw [none]
  · have back : (lengths.map (· / wide)).map (· * wide) = lengths := by
      rw [List.map_map]
      refine (List.map_congr_left fun length member => ?_).trans (List.map_id lengths)
      exact Nat.div_mul_cancel (whole length member)
    rw [← closer_scale positive [] 0 (lengths.map (· / wide)), back]
    rfl

/-- Lines are nested by how many whole steps they are indented. Where all spacing is in whole steps, this
is by how far they are indented. If none of them goes on in another line of the source, they are the lines
of the source that are not blank. -/
theorem lines_nested {source : List Char} {root : Token} (is : Token.ofSource source = .ok root)
    (unchained : Unchained source) (stepped : Stepped (spacings source root)) :
    Nests root.parents (depths source root) ∧
      ((∀ spacing ∈ spacings source root, step (spacings source root) ∣ spacing.length) →
        Nests root.parents ((spacings source root).map List.length)) ∧
      ((∀ line ∈ root.lines, ∀ char ∈ line.text.toList, isLineEnd char = false) →
        spacings source root = indents source) := by
  cases read : readRows .start (.ofText source) with
  | error error =>
    unfold Token.ofSource at is
    rw [read] at is
    cases is
  | ok rows =>
    have unchained := unchained rows read
    obtain ⟨parents, lines⟩ := lines_rows read is unchained
    have begins : LineStart source (.ofText source) := ⟨[], rfl, rfl, by simp⟩
    have laid := readRows_laid read (.inr begins)
    have same : spacings source root = rows.map fun row => row.line.spacing source := by
      have both := congrArg (List.map (Token.spacing source)) lines
      rw [List.map_map, List.map_map] at both
      exact both
    have counted : rows.map Row.depth = depths source root := by
      have steps := laid.measured.steps
      rw [List.map_map] at steps
      have steps := steps (same ▸ stepped)
      unfold depths
      rw [same, List.map_map]
      refine List.map_congr_left fun row member => ?_
      exact steps _ (List.mem_map_of_mem member)
    rw [counted] at parents
    refine ⟨nests_of_closer parents, fun whole => ?_, fun flat => ?_⟩
    · have lengths : depths source root =
          ((spacings source root).map List.length).map (· / step (spacings source root)) := by
        rw [List.map_map]
        rfl
      rw [lengths, closer_whole (List.forall_mem_map.mpr whole)] at parents
      exact nests_of_closer parents
    · rw [same]
      refine laid.complete unchained fun row member => ?_
      have listed : row.line.alone ∈ root.lines.map alone := lines ▸ List.mem_map_of_mem member
      obtain ⟨line, inside, alike⟩ := List.mem_map.mp listed
      have text : line.text = row.line.text := (congrArg Token.text alike :)
      exact text ▸ flat line inside

/-- Whether nothing is chained in the rows that are read. -/
def readsUnchained (source : List Char) : Bool :=
  match readRows .start (.ofText source) with
  | .ok rows => rows.all fun row => row.chained.isEmpty
  | .error _ => true

theorem unchained_of_reads {source : List Char} (reads : readsUnchained source = true) : Unchained source := by
  intro rows read row member
  unfold readsUnchained at reads
  rw [read] at reads
  exact List.isEmpty_iff.mp (List.all_eq_true.mp reads row member)

/-- A list in a list, indented with two spaces. -/
def shelves : List Char := "ul\n  li\n    a\n    b\n  li".toList

theorem shelves_unchained : readsUnchained shelves = true := by
  decide +kernel

theorem shelves_spacings :
    (Token.ofSource shelves).toOption.map (spacings shelves) =
      some ["".toList, "  ".toList, "    ".toList, "    ".toList, "  ".toList] := by
  decide +kernel

theorem shelves_nested : ∃ root, Token.ofSource shelves = .ok root ∧ Unchained shelves ∧
    Stepped (spacings shelves root) ∧ Nests root.parents (depths shelves root) ∧
    root.parents = [none, some 0, some 1, some 1, some 0] := by
  have found := shelves_spacings
  cases read : Token.ofSource shelves with
  | error error =>
    rw [read] at found
    cases found
  | ok root =>
    rw [read] at found
    have found : spacings shelves root = _ := Option.some.inj found
    have unchained := unchained_of_reads shelves_unchained
    have stepped : Stepped (spacings shelves root) := by
      rw [found]
      intro spacing first tab
      cases first
      exact absurd tab (by decide)
    have nests := (lines_nested read unchained stepped).1
    refine ⟨root, rfl, unchained, stepped, nests, ?_⟩
    rw [nests.closest, depths, found]
    decide

/-- Three lines, of which each is indented further than the one before. -/
def ragged : List Char := "a\n    b\n     c".toList

theorem ragged_unchained : readsUnchained ragged = true := by
  decide +kernel

theorem ragged_read :
    (Token.ofSource ragged).toOption.map (fun root => (spacings ragged root, root.parents)) =
      some (["".toList, "    ".toList, "     ".toList], [none, some 0, some 0]) := by
  decide +kernel

theorem ragged_flat :
    (Token.ofSource ragged).toOption.map (fun root =>
      root.lines.all fun line => line.text.toList.all fun char => !isLineEnd char) = some true := by
  decide +kernel

/-- The last line is indented further than the line before it, but not by a whole step, so that it is not
nested in it. -/
theorem ragged_beside : ∃ root, Token.ofSource ragged = .ok root ∧ Unchained ragged ∧
    (∀ line ∈ root.lines, ∀ char ∈ line.text.toList, isLineEnd char = false) ∧
    spacings ragged root = indents ragged ∧
    ¬ Nests root.parents ((spacings ragged root).map List.length) := by
  have found := ragged_read
  have flat := ragged_flat
  cases read : Token.ofSource ragged with
  | error error =>
    rw [read] at found
    cases found
  | ok root =>
    rw [read] at found flat
    obtain ⟨spaced, parents⟩ := Prod.mk.inj (Option.some.inj found)
    refine ⟨root, rfl, unchained_of_reads ragged_unchained, fun line member char inside => ?_, ?_, fun nests => ?_⟩
    · have texts := List.all_eq_true.mp (Option.some.inj flat) line member
      simpa using List.all_eq_true.mp texts char inside
    · rw [spaced]
      decide
    · have nested := (nests.next 1 4 5 (by rw [spaced]; rfl) (by rw [spaced]; rfl)).1.mpr (by decide)
      rw [parents] at nested
      cases nested

end Indentation

end HtmlTemplate
