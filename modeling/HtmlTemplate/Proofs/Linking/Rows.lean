import HtmlTemplate.Proofs.Linking.Lines

/-! Lines that are put into the lines that they are nested in, one at a time. What is nested in the lines
that are open follows in the source, and is put into them later. What is read into a list is what is read without one:
the list itself shows what lines are open, and whether the lines nested in them are text. -/

namespace HtmlTemplate

variable {tree more inner node : Placed} {place target innermost : Nat} {text : Bool} {holes : Nat → List Placed}

namespace Placed

/-! Trees in trees. -/

theorem node_unique (once : tree.places.Nodup) {first second : Placed} (left : first ∈ tree.nodes)
    (right : second ∈ tree.nodes) (same : first.place = second.place) : first = second :=
  List.inj_on_of_nodup_map once left right same

theorem exists_node (member : place ∈ tree.places) : ∃ node ∈ tree.nodes, node.place = place :=
  List.mem_map.mp member

theorem places_of_mem (member : node ∈ tree.nodes) : node.places ⊆ tree.places := by
  intro place inside
  obtain ⟨below, found, rfl⟩ := exists_node inside
  exact List.mem_map_of_mem (mem_nodes_trans member found)

theorem nodup_of_mem (once : tree.places.Nodup) (member : node ∈ tree.nodes) : node.places.Nodup := by
  induction tree using ofParts with
  | step tree step =>
    rw [nodes_eq] at member
    rcases List.mem_cons.mp member with rfl | below
    · exact once
    · obtain ⟨part, inside, found⟩ := List.mem_flatMap.mp below
      rw [places_eq] at once
      exact step part inside ((List.nodup_flatMap.mp (List.nodup_cons.mp once).2).1 part inside) found

theorem mem_kids_of_mem (member : place ∈ tree.places) (other : place ≠ tree.place) :
    ∃ node ∈ tree.nodes, place ∈ node.kids := by
  induction tree using ofParts with
  | step tree step =>
    rw [places_eq] at member
    rcases List.mem_cons.mp member with same | below
    · exact absurd same other
    · obtain ⟨part, isPart, inside⟩ := List.mem_flatMap.mp below
      by_cases root : place = part.place
      · exact ⟨tree, mem_nodes_self tree, root ▸ List.mem_map_of_mem isPart⟩
      · obtain ⟨node, found, kid⟩ := step part isPart inside root
        exact ⟨node, nodes_of_part isPart found, kid⟩

theorem nodup_kids (once : tree.places.Nodup) : tree.kids.Nodup := by
  rw [places_eq] at once
  refine (List.nodup_cons.mp once).2.sublist ?_
  unfold kids
  generalize tree.parts = parts
  induction parts with
  | nil => exact .slnil
  | cons part rest step =>
    rw [List.map_cons, List.flatMap_cons, places_eq, List.cons_append]
    exact .cons_cons _ (step.trans (List.sublist_append_right _ _))

theorem fill_mem (member : node ∈ tree.nodes) : fill holes node ∈ (fill holes tree).nodes := by
  induction tree using ofParts with
  | step tree step =>
    rw [nodes_eq] at member
    rcases List.mem_cons.mp member with rfl | below
    · exact mem_nodes_self _
    · obtain ⟨part, inside, found⟩ := List.mem_flatMap.mp below
      refine nodes_of_part ?_ (step part inside found)
      rw [fill_eq holes tree]
      exact List.mem_append_left _ (List.mem_map_of_mem inside)

theorem filled_mem (member : node ∈ tree.nodes) (put : more ∈ holes node.place) :
    more ∈ (fill holes tree).nodes := by
  refine mem_nodes_trans (fill_mem member) (nodes_of_part ?_ (mem_nodes_self more))
  rw [fill_eq]
  exact List.mem_append_right _ put

theorem grafted_mem (here : target ∈ tree.places) : more ∈ (graft target more tree).nodes := by
  obtain ⟨node, member, rfl⟩ := exists_node here
  exact filled_mem member (by rw [if_pos rfl]; exact List.mem_singleton_self more)

theorem places_subset_graft (target : Nat) (more tree : Placed) : tree.places ⊆ (graft target more tree).places := by
  intro place inside
  obtain ⟨node, member, rfl⟩ := exists_node inside
  rw [← place_graft target more node]
  exact List.mem_map_of_mem (fill_mem member)

/-- What is put into a tree in which no place comes twice is apart from it. -/
theorem apart_of_graft (once : (graft target more tree).places.Nodup) (here : target ∈ tree.places) :
    List.Disjoint tree.places more.places := by
  have all := (places_graft target more tree).nodup_iff.mp once
  obtain ⟨number, count⟩ : ∃ number, tree.places.count target = number + 1 :=
    ⟨_, (Nat.succ_pred_eq_of_pos (List.count_pos_iff.mpr here)).symm⟩
  rw [count, List.replicate_succ, List.flatten_cons, ← List.append_assoc] at all
  exact List.disjoint_of_nodup_append (List.nodup_append'.mp all).1

/-- A tree is put into one that is put into another one. -/
theorem graft_graft {second : Nat} (apart : second ∉ tree.places) :
    graft second inner (graft target more tree) = graft target (graft second inner more) tree := by
  unfold graft
  rw [fill_fill]
  refine fill_congr fun place inside => ?_
  have other : place ≠ second := fun same => apart (same ▸ inside)
  rw [if_neg other, List.append_nil]
  split <;> rfl

theorem Matches.addAll {line : Token} {parts : List Placed} {nested : List Token} (same : tree.Matches line)
    (all : List.Forall₂ Matches parts nested) : (tree.addAll parts).Matches (line.addChildren nested) := by
  cases same with
  | intro inner => exact .intro (List.rel_append inner all)

/-! Lines that other lines can be nested in. -/

/-- Whether the lines nested in a line are text if it begins with this part. -/
def startsText (data : Placed) : Bool :=
  data.kind.nestsText || (data.kind == .tagLine && data.parts.getLast?.any (·.kind == .trailingDot))

/-- Whether the lines nested in a part are text. -/
def nestsText (node : Placed) : Bool := node.kind == .line && node.parts.head?.any startsText

theorem startsText_of_ne {data : Placed} (other : data.kind ≠ .tagLine) : data.startsText = data.kind.nestsText := by
  unfold startsText
  rw [beq_false_of_ne other, Bool.false_and, Bool.or_false]

theorem nestsText_of_ne (other : node.kind ≠ .line) : node.nestsText = false := by
  unfold nestsText
  rw [beq_false_of_ne other, Bool.false_and]

theorem nestsText_line {data : Placed} (line : node.kind = .line) (first : node.parts.head? = some data) :
    node.nestsText = data.startsText := by
  unfold nestsText
  rw [line, first]
  rfl

theorem kinds_eq {parts : List Placed} {tokens : List Token} (same : List.Forall₂ Matches parts tokens) :
    parts.map kind = tokens.map Token.kind := by
  induction same with
  | nil => rfl
  | cons first _ step =>
    cases first
    exact congrArg (_ :: ·) step

theorem any_kind {parts : List Placed} {tokens : List Token} (same : List.Forall₂ Matches parts tokens)
    (wanted : TokenKind) :
    parts.getLast?.any (·.kind == wanted) = tokens.getLast?.any (·.kind == wanted) := by
  have kinds := congrArg (fun kinds => kinds.getLast?.any (· == wanted)) (kinds_eq same)
  simpa only [List.getLast?_map, Option.any_map] using kinds

theorem Matches.nestsText {line : Token} (same : tree.Matches line) : tree.nestsText = line.nestsText := by
  obtain @⟨place, kind, span, expr, text, parts, children, all⟩ := same
  by_cases isLine : kind = .line
  · subst isLine
    cases all with
    | nil => rfl
    | cons first _ =>
      obtain @⟨_, _, _, _, _, _, _, inner⟩ := first
      change (_ || (_ && _)) = (_ || (_ && _))
      rw [any_kind inner]
  · have none : Placed.nestsText ⟨place, kind, span, expr, parts⟩ = false := nestsText_of_ne isLine
    rw [none]
    unfold Token.nestsText
    split
    · exact absurd ‹_› isLine
    · rfl

/-- A line in a tree that other lines can be put into. What is on a line of markup comes first in it. -/
def Opens (tree : Placed) (place : Nat) (text : Bool) : Prop :=
  ∃ node ∈ tree.nodes, node.place = place ∧ (node.kind ≠ .tagLine ∧ (node.kind = .line → node.parts ≠ [])) ∧
    node.nestsText = text

namespace Opens

theorem mem (opens : Opens tree place text) : place ∈ tree.places := by
  obtain ⟨node, member, rfl, -⟩ := opens
  exact List.mem_map_of_mem member

theorem mono (opens : Opens node place text) (member : node ∈ tree.nodes) : Opens tree place text := by
  obtain ⟨below, inside, rest⟩ := opens
  exact ⟨below, mem_nodes_trans member inside, rest⟩

theorem of_headed {line : Token} (same : tree.Matches line) (headed : line.Headed) :
    Opens tree tree.place line.nestsText := by
  refine ⟨tree, mem_nodes_self tree, rfl, ?_, same.nestsText⟩
  cases same with
  | intro all =>
    cases headed.formed with
    | markup is whole =>
      cases is
      cases whole
      refine ⟨nofun, fun _ none => ?_⟩
      cases none
      cases all
    | statement asks =>
      refine ⟨fun tag => ?_, fun line => ?_⟩
      · cases tag
        cases asks
      · cases line
        cases asks
    | named is => exact absurd is headed.line

/-- A line stays as it is when something is put into another line, or into the line itself. -/
theorem graft (opens : Opens tree place text) (once : tree.places.Nodup) {other : Bool}
    (goal : Opens tree target other) : Opens (graft target more tree) place text := by
  obtain ⟨node, member, rfl, ⟨noTag, parts⟩, rfl⟩ := opens
  obtain ⟨outer, outside, rfl, ⟨outerNoTag, outerParts⟩, -⟩ := goal
  refine ⟨_, fill_mem member, place_graft _ more node, ?_, ?_⟩
  · rw [← Placed.graft, graft_eq]
    refine ⟨noTag, fun line none => parts line ?_⟩
    exact List.map_eq_nil_iff.mp (List.append_eq_nil_iff.mp none).1
  · rw [← Placed.graft]
    by_cases isLine : node.kind = .line
    · obtain ⟨data, rest, all⟩ := List.exists_cons_of_ne_nil (parts isLine)
      have inside : data ∈ tree.nodes :=
        mem_nodes_trans member (nodes_of_part (all ▸ List.mem_cons_self) (mem_nodes_self data))
      have same : (Placed.graft outer.place more data).startsText = data.startsText := by
        by_cases goal : data.place = outer.place
        · cases node_unique once inside outside goal
          rw [startsText_of_ne outerNoTag, startsText_of_ne (by rwa [kind_graft]), kind_graft]
        · unfold startsText
          rw [kind_graft, graft_eq, if_neg goal, List.append_nil, List.getLast?_map, Option.any_map]
          simp only [kind_graft]
      rw [nestsText_line isLine (congrArg List.head? all), ← same]
      exact nestsText_line (by rwa [kind_graft]) (by rw [graft_eq, all]; rfl)
    · rw [nestsText_of_ne isLine, nestsText_of_ne (by rwa [kind_graft])]

/-- What is put into a tree opens the lines that it opened before. -/
theorem grafted (opens : Opens more place text) (here : target ∈ tree.places) :
    Opens (Placed.graft target more tree) place text :=
  opens.mono (grafted_mem here)

end Opens

/-! Lines that are chained to one another. -/

/-- A line with the lines chained to it, and the place of the innermost one. -/
inductive Chained : Placed → Nat → Token → List Token → Prop where
  | alone {tree : Placed} {line : Token} (same : tree.Matches line) : Chained tree tree.place line []
  | more {tree inner : Placed} {innermost : Nat} {line next : Token} {rest : List Token}
      (same : tree.Matches line) (chain : Chained inner innermost next rest) :
      Chained (tree.addAll [inner]) innermost line (next :: rest)

namespace Chained

variable {line : Token} {chained : List Token}

theorem mem (chain : Chained tree innermost line chained) : innermost ∈ tree.places := by
  induction chain with
  | alone => exact mem_places_self _
  | @more tree inner innermost line next rest same chain step =>
    rw [places_addAll, List.flatMap_singleton]
    exact List.mem_append_right _ step

theorem opens (chain : Chained tree innermost line chained) (headed : line.Headed)
    (others : ∀ next ∈ chained, next.Headed) :
    Opens tree innermost (chained.getLast?.getD line).nestsText := by
  induction chain with
  | alone same => exact .of_headed same headed
  | @more tree inner innermost line next rest same chain step =>
    obtain ⟨first, others⟩ := List.forall_mem_cons.mp others
    rw [List.getLast?_cons]
    exact (step first others).mono
      (nodes_of_part (List.mem_append_right _ (List.mem_singleton_self inner)) (mem_nodes_self inner))

/-- The lines nested in a row are put into its innermost line. -/
theorem fill (chain : Chained tree innermost line chained) (once : tree.places.Nodup)
    (none : ∀ place ∈ tree.places, place ≠ innermost → holes place = []) {nested : List Token}
    (all : List.Forall₂ Matches (holes innermost) nested) :
    (Placed.fill holes tree).Matches (Row.link line nested chained) := by
  induction chain with
  | alone same =>
    rw [fill_root once none]
    exact same.addAll all
  | @more tree inner innermost line next rest same chain step =>
    rw [places_addAll, List.flatMap_singleton] at once none
    obtain ⟨-, innerOnce, apart⟩ := List.nodup_append'.mp once
    have outside : ∀ place ∈ tree.places, holes place = [] := fun place inside =>
      none place (List.mem_append_left _ inside) fun same => apart inside (same ▸ chain.mem)
    rw [fill_addAll (outside _ (mem_places_self tree)), fill_of_none outside, List.map_singleton]
    have inside := step innerOnce (fun place inside => none place (List.mem_append_right _ inside)) all
    exact same.addAll (.cons inside .nil)

end Chained

end Placed

/-! Lines by depth. -/

/-- The lines that are put into the lines which are open, the innermost one first: each into the innermost
one that is less deep. -/
def Spread (holes : Nat → List Placed) : List Nat → List (Nat × Token) → Prop
  | [], lines => lines = []
  | place :: parents, lines =>
    List.Forall₂ Placed.Matches (holes place)
        ((lines.takeWhile fun line => parents.length ≤ line.1).map Prod.snd) ∧
      Spread holes parents (lines.dropWhile fun line => parents.length ≤ line.1)

namespace Spread

open Placed

variable {parents more : List Nat} {lines : List (Nat × Token)}

theorem nil (none : ∀ place ∈ parents, holes place = []) : Spread holes parents [] := by
  induction parents with
  | nil => rfl
  | cons place parents step =>
    obtain ⟨first, rest⟩ := List.forall_mem_cons.mp none
    exact ⟨first ▸ .nil, step rest⟩

theorem congr {holes other : Nat → List Placed} (same : ∀ place ∈ parents, holes place = other place)
    (spread : Spread holes parents lines) : Spread other parents lines := by
  induction parents generalizing lines with
  | nil => exact spread
  | cons place parents step =>
    obtain ⟨first, rest⟩ := List.forall_mem_cons.mp same
    exact ⟨first ▸ spread.1, step rest spread.2⟩

/-- A line closes the lines that are as deep as it is: nothing more is put into them. -/
theorem close {depth : Nat} {line : Token} (closed : List Nat) (none : ∀ place ∈ closed, holes place = [])
    (deeper : parents.length = depth + 1) (spread : Spread holes parents ((depth, line) :: lines)) :
    Spread holes (closed ++ parents) ((depth, line) :: lines) := by
  induction closed with
  | nil => exact spread
  | cons place closed step =>
    obtain ⟨first, rest⟩ := List.forall_mem_cons.mp none
    have shallower : ¬(closed ++ parents).length ≤ depth := by
      rw [List.length_append]
      omega
    refine ⟨?_, ?_⟩
    · rw [List.takeWhile_cons_of_neg (by simpa using shallower), first]
      exact .nil
    · rw [List.dropWhile_cons_of_neg (by simpa using shallower)]
      exact step rest

/-- A line is put into the innermost one that is open, and opens itself. -/
theorem put {row : Row} {rows : List Row} {innermost target : Nat} (once : target ∉ parents)
    (deep : parents.length = row.depth) (chain : Chained inner innermost row.line row.chained)
    (innerOnce : inner.places.Nodup) (none : ∀ place ∈ inner.places, place ≠ innermost → holes place = [])
    (spread : Spread holes (innermost :: target :: parents) (Row.nest rows)) :
    Spread (fun place => (if place = target then [inner] else []).map (Placed.fill holes) ++ holes place)
      (target :: parents) (Row.nest (row :: rows)) := by
  have deeper : (fun line : Nat × Token => decide ((target :: parents).length ≤ line.1)) =
      fun line => decide (row.depth < line.1) := by
    rw [List.length_cons, deep]
    rfl
  obtain ⟨nested, same, others⟩ := spread
  rw [deeper] at nested same others
  have linked := chain.fill innerOnce none nested
  have first : decide (parents.length ≤ row.depth) = true := decide_eq_true (Nat.le_of_eq deep)
  refine ⟨?_, ?_⟩
  · simp only [Row.nest, List.takeWhile_cons, first, if_true]
    exact .cons linked same
  · simp only [Row.nest, List.dropWhile_cons, first, if_true]
    refine others.congr fun place member => ?_
    have other : place ≠ target := fun same => once (same ▸ member)
    rw [if_neg other]
    rfl

end Spread

/-! Reading into a list. -/

open Placed

variable {base slots : Slots}

namespace Slots

theorem Links.kind? (links : Links slots node) : slots.kind? node.place = some node.kind := by
  obtain ⟨slot, found, ⟨kind, -⟩, -⟩ := links.slot
  unfold Slots.kind?
  rw [found, ← kind]
  rfl

theorem Plants.nestsText (plants : Plants base slots tree) (member : node ∈ tree.nodes) :
    slots.nestsText node.place = node.nestsText := by
  have inside {part : Placed} {parts : List Placed} (all : parts = node.parts) (is : part ∈ parts) :
      part ∈ tree.nodes := mem_nodes_trans member (nodes_of_part (all ▸ is) (mem_nodes_self part))
  obtain ⟨⟨kind, span, expr, parent, prev, next, child, tail⟩, found, ⟨isKind, -⟩, isChild, -⟩ :=
    (plants.linked node member).slot
  unfold Slots.nestsText
  rw [found]
  dsimp only at isKind isChild ⊢
  subst isKind isChild
  by_cases isLine : node.kind = .line
  · cases all : node.parts with
    | nil => simp [Placed.nestsText, Placed.kids, all, isLine]
    | cons data rest =>
      have here := inside all.symm (List.mem_cons_self)
      obtain ⟨slot, foundData, ⟨dataKind, -⟩, -, dataTail⟩ := (plants.linked data here).slot
      have last : (slot.tail >>= slots.kind?) = data.parts.getLast?.map Placed.kind := by
        rw [dataTail]
        unfold Placed.kids
        rw [List.getLast?_map]
        cases final : data.parts.getLast? with
        | none => rfl
        | some part =>
          have below := mem_nodes_trans here (nodes_of_part (List.mem_of_getLast? final) (mem_nodes_self part))
          exact (plants.linked part below).kind?
      rw [nestsText_line isLine (congrArg List.head? all)]
      simp only [Placed.kids, all, isLine, List.map_cons, List.head?_cons, foundData, last, dataKind]
      unfold startsText
      cases data.parts.getLast? <;> simp
  · rw [nestsText_of_ne isLine]
    split
    · rename_i same
      exact absurd (Option.some.inj (congrArg (Option.map Slot.kind) same)) isLine
    · rfl

/-- A line that has been put into another one is the last line in it. -/
theorem Plants.lastLine?_graft (plants : Plants base slots (Placed.graft target more tree))
    (opens : Opens tree target text) (line : more.kind ≠ .eachVariable) :
    slots.lastLine? target = some more.place := by
  have apart := apart_of_graft plants.nodup opens.mem
  have putKind := (plants.linked more (grafted_mem opens.mem)).kind?
  obtain ⟨goal, member, rfl, ⟨-, parts⟩, -⟩ := opens
  have linked := plants.linked _ (fill_mem member)
  obtain ⟨slot, found, ⟨isKind, -⟩, isChild, isTail⟩ := linked.slot
  rw [← Placed.graft] at found isKind isChild isTail
  rw [kids_graft, if_pos rfl] at isChild isTail
  rw [List.getLast?_concat] at isTail
  rw [place_graft] at found
  rw [kind_graft] at isKind
  unfold Slots.lastLine?
  simp only [found, isTail, isKind, putKind, Option.bind_eq_bind, Option.bind_some]
  by_cases isLine : goal.kind = .line
  · obtain ⟨data, rest, all⟩ := List.exists_cons_of_ne_nil (parts isLine)
    have kids : goal.kids = data.place :: rest.map Placed.place := congrArg (List.map Placed.place) all
    have other : data.place ≠ more.place := fun same =>
      apart (kids_subset member (kids ▸ List.mem_cons_self)) (same ▸ mem_places_self more)
    rw [isChild, kids]
    simp [isLine, other]
  · simp [isLine, line]

end Slots

namespace Linking

open Slots

variable {α β : Type} {input : Input} {line : Nat} {last : Option Nat}

/-! Chained lines. -/

/-- What reads the lines chained to a line into a tree, each into the one before it, does the same as what
reads them alone. It tells which one is the innermost. -/
inductive Joins (tree : Placed) (line : Nat) (last : Option Nat) :
    Except LexError (Parsed (List Token) input) → Except LexError (Parsed (Option Nat) input × Slots) → Prop where
  | none (parsed : Parsed (List Token) input) {after : Slots} (plants : Plants [] after tree)
      (none : parsed.value = []) : Joins tree line last (.ok parsed) (.ok (parsed.map fun _ => last, after))
  | some (parsed : Parsed (List Token) input) {after : Slots} {inner : Placed} {innermost : Nat} {next : Token}
      {rest : List Token} (plants : Plants [] after (graft line inner tree)) (all : parsed.value = next :: rest)
      (chain : Chained inner innermost next rest) :
      Joins tree line last (.ok parsed) (.ok (parsed.map fun _ => some innermost, after))
  | error {error : LexError} : Joins tree line last (.error error) (.error error)

theorem chained_joins (lineStart : Input) (last : Option Nat) (input : Input) (plants : Plants [] slots tree)
    (here : line ∈ tree.places) :
    Joins tree line last (Document.readChained lineStart input) (chained lineStart line last input slots) := by
  fun_induction Document.readChained lineStart input generalizing slots tree line last with
  | case1 input colon start later =>
    rename_i atEnd
    rw [chained, dif_pos colon, if_pos atEnd]
    exact .none ⟨[], start, later.1⟩ plants rfl
  | case2 input colon start later =>
    rename_i more step
    rw [chained, dif_pos colon, if_neg more]
    apply (line_sows slots lineStart start).next fun _ => .error
    intro next nextTree after planted same
    rw [bind_ok (append_eq ..)]
    have grown := plants.graft planted here
    have apart := apart_of_graft grown.nodup here
    have outside : nextTree.place ∉ tree.places := fun inside => apart inside (mem_places_self nextTree)
    have joins := step next (some nextTree.place) grown (places_of_mem (grafted_mem here) (mem_places_self nextTree))
    dsimp only [Parsed.map] at joins ⊢
    generalize Document.readChained lineStart next.rest = read at joins ⊢
    generalize filled : chained lineStart nextTree.place (some nextTree.place) next.rest _ = result at joins
    have alone := Chained.alone same
    cases joins with
    | error =>
      rw [bind_error filled]
      exact .error
    | none more done none =>
      rw [bind_ok filled]
      refine .some ((more.map (next.value :: ·)).widen _) done ?_ alone
      exact congrArg (next.value :: ·) none
    | @some more after inner innermost second rest done all chain =>
      rw [bind_ok filled]
      rw [graft_graft outside, graft_root _ planted.nodup] at done
      refine .some ((more.map (next.value :: ·)).widen _) done ?_ (.more same chain)
      exact congrArg (next.value :: ·) all
  | case3 input plain =>
    rw [chained, dif_neg plain]
    exact .none (.here input []) plants rfl

/-! Rows. -/

/-- What reads a row into a line of a tree does the same as what reads it alone. It tells where the lines
nested in the row belong. -/
inductive Rowed (tree : Placed) (parent depth : Nat) :
    Except LexError (Parsed Row input) → Except LexError (Parsed (Option Nat) input × Slots) → Prop where
  | ok (parsed : Parsed Row input) {after : Slots} {inner : Placed} {innermost : Nat} (last : Option Nat)
      (plants : Plants [] after (graft parent inner tree))
      (chain : Chained inner innermost parsed.value.line parsed.value.chained)
      (is : last.or (after.lastLine? parent) = some innermost) (deep : parsed.value.depth = depth) :
      Rowed tree parent depth (.ok parsed) (.ok (parsed.map fun _ => last, after))
  | error {error : LexError} : Rowed tree parent depth (.error error) (.error error)

theorem row_rowed {outline : Outline} {parent : Nat} (plants : Plants [] slots tree)
    (opens : Opens tree parent outline.isText) (lineStart input : Input) :
    Rowed tree parent outline.depth (Document.readRow outline lineStart input)
      (row parent lineStart input slots) := by
  have asked : slots.nestsText parent = outline.isText := by
    obtain ⟨node, member, rfl, -, is⟩ := opens
    rw [plants.nestsText member, is]
  unfold Document.readRow row
  rw [bind_ok (show (get : LinkM Slots) slots = .ok (slots, slots) from rfl), asked]
  have ofLine {planted : Slots} {lineTree : Placed} {line : Token} (plants : Plants [] planted (graft parent lineTree tree))
      (same : lineTree.Matches line) (headed : line.Headed) :
      planted.lastLine? parent = some lineTree.place := by
    refine plants.lastLine?_graft opens ?_
    cases same
    exact headed.line
  refine branching (fun _ => ?_) fun _ => ?_
  · have sows := plain_sows slots input
    have headed := Line.readPlain_headed input
    generalize Line.readPlain input = read at sows headed ⊢
    generalize filled : plain input slots = result at sows
    cases sows with
    | error =>
      rw [bind_error filled]
      exact .error
    | ok parsed planted same =>
      rw [bind_ok filled, bind_ok (append_eq ..)]
      have grown := plants.graft planted opens.mem
      exact .ok (parsed.map _) none grown (.alone same) (ofLine grown same headed) rfl
  · have sows := line_sows slots lineStart input
    have headed := Line.read_headed lineStart input
    generalize Line.read lineStart input = read at sows headed ⊢
    generalize filled : line lineStart input slots = result at sows
    cases sows with
    | error =>
      rw [bind_error filled]
      exact .error
    | @ok parsed after lineTree planted same =>
      rw [bind_ok filled, bind_ok (append_eq ..)]
      have grown := plants.graft planted opens.mem
      have apart := apart_of_graft grown.nodup opens.mem
      have outside : lineTree.place ∉ tree.places := fun inside => apart inside (mem_places_self lineTree)
      have joins := chained_joins lineStart none parsed.rest grown
        (places_of_mem (grafted_mem opens.mem) (mem_places_self lineTree))
      let rowOf (chained : List Token) : Row := ⟨outline.depth, parsed.value, chained⟩
      change Rowed _ _ _ (Document.readChained lineStart parsed.rest >>= fun chained =>
        pure ((chained.map rowOf).widen parsed.reached)) _
      dsimp only [Parsed.map] at joins ⊢
      generalize Document.readChained lineStart parsed.rest = read at joins ⊢
      generalize filled : chained lineStart lineTree.place none parsed.rest _ = result at joins
      cases joins with
      | error =>
        rw [bind_error filled]
        exact .error
      | none more done none =>
        rw [bind_ok filled]
        refine .ok ((more.map rowOf).widen _) Option.none done ?_ (ofLine done same headed) rfl
        change Chained _ _ parsed.value more.value
        exact none ▸ Chained.alone same
      | @some more after inner innermost second rest done all chain =>
        rw [bind_ok filled]
        rw [graft_graft outside, graft_root _ planted.nodup] at done
        refine .ok ((more.map rowOf).widen _) (some innermost) done ?_ rfl rfl
        change Chained _ _ parsed.value more.value
        exact all ▸ Chained.more same chain

/-! Sources. -/

namespace Nesting

/-- The line in which a deeper line would be nested. -/
def last? (nesting : Nesting) (slots : Slots) : Option Nat := nesting.chained.or (slots.lastLine? nesting.parent)

/-- The lines that are open, and the line that a deeper line would open. -/
def lines (nesting : Nesting) (slots : Slots) : List Nat := (nesting.last? slots).toList ++ nesting.parents

end Nesting

/-- A tree has the lines that are open. After them comes the root, in which no text is nested. -/
structure Stands (outline : Outline) (nesting : Nesting) (slots : Slots) (tree : Placed) : Prop where
  plants : Plants [] slots tree
  unit : nesting.unit = outline.unit
  parents : List.Forall₂ (Opens tree) nesting.parents (outline.parents ++ [false])
  last : List.Forall₂ (Opens tree) (nesting.last? slots).toList outline.last.toList
  once : (nesting.lines slots).Nodup

variable {outline : Outline} {nesting : Nesting}

/-- The place at which a line is entered. -/
structure Stands.Enters (stands : Stands outline nesting slots tree) (inside : Outline) (entered : Nesting) :
    Prop where
  unit : entered.unit = inside.unit
  parents : List.Forall₂ (Opens tree) entered.parents (inside.parents ++ [false])
  suffix : entered.parents <:+ nesting.lines slots

theorem Stands.open_mem (stands : Stands outline nesting slots tree) :
    ∀ place ∈ nesting.lines slots, place ∈ tree.places := by
  have mem {places : List Nat} {texts : List Bool} (opens : List.Forall₂ (Opens tree) places texts) :
      ∀ place ∈ places, place ∈ tree.places :=
    ((List.forall₂_and_left _ _).mp (opens.imp fun _ _ opens => ⟨opens.mem, opens⟩)).1
  exact List.forall_mem_append.mpr ⟨mem stands.last, mem stands.parents⟩

theorem Stands.depth_eq (stands : Stands outline nesting slots tree) : nesting.depth = outline.depth := by
  have lengths := stands.parents.length_eq
  rw [List.length_append, List.length_singleton] at lengths
  unfold Nesting.depth Outline.depth
  omega

theorem Stands.open? (stands : Stands outline nesting slots tree) (depth : Nat) :
    (outline.open? depth = none ∧ nesting.open? slots depth = none) ∨
      ∃ inside entered, outline.open? depth = some inside ∧ nesting.open? slots depth = some entered ∧
        stands.Enters inside entered := by
  have deep := stands.depth_eq
  unfold Outline.open? Nesting.open?
  by_cases within : depth ≤ outline.depth
  · have notDeeper : depth ≠ nesting.depth + 1 := by omega
    rw [if_pos within, if_neg notDeeper, if_pos (deep ▸ within), deep]
    refine .inr ⟨_, _, rfl, rfl, stands.unit, ?_, (List.drop_suffix ..).trans (List.suffix_append ..)⟩
    have short : outline.depth - depth ≤ outline.parents.length := Nat.sub_le ..
    have dropped := List.forall₂_drop (outline.depth - depth) stands.parents
    rwa [List.drop_append_of_le_length short] at dropped
  · rw [if_neg within]
    by_cases deeper : depth = outline.depth + 1
    · rw [if_pos deeper, if_pos (deep ▸ deeper)]
      have last := stands.last
      have lines : nesting.lines slots = (nesting.last? slots).toList ++ nesting.parents := rfl
      change (_ ∧ (nesting.last? slots).map _ = none) ∨ ∃ _ _, _ ∧ (nesting.last? slots).map _ = some _ ∧ _
      generalize nesting.last? slots = here at last lines ⊢
      generalize outline.last = text at last ⊢
      match here, text, last with
      | none, none, _ => exact .inl ⟨rfl, rfl⟩
      | some line, some text, .cons opens .nil =>
        refine .inr ⟨_, _, rfl, rfl, stands.unit, .cons opens stands.parents, ?_⟩
        rw [lines]
        exact List.suffix_refl _
    · rw [if_neg deeper, if_neg (deep ▸ deeper), if_neg (deep ▸ within)]
      exact .inl ⟨rfl, rfl⟩

/-- A line is entered at the same depth, or it is a fault for both. -/
theorem Stands.enter (stands : Stands outline nesting slots tree) (spacing : List Char) :
    (∃ fault, outline.enter spacing = .error fault ∧ nesting.enter slots spacing = .error fault) ∨
      ∃ inside entered, outline.enter spacing = .ok inside ∧ nesting.enter slots spacing = .ok entered ∧
        stands.Enters inside entered := by
  have same : ({ Outline.start with unit := nesting.unit } : Outline).measure spacing = outline.measure spacing := by
    unfold Outline.measure
    rw [stands.unit]
  unfold Outline.enter Nesting.enter
  rw [same]
  cases outline.measure spacing with
  | error fault => exact .inl ⟨fault, rfl, rfl⟩
  | ok measured =>
    obtain ⟨depth, unit⟩ := measured
    have measured : Stands { outline with unit } { nesting with unit } slots tree :=
      ⟨stands.plants, rfl, stands.parents, stands.last, stands.once⟩
    rcases measured.open? depth with ⟨none, noPlace⟩ | ⟨inside, entered, opened, found, enters⟩
    · refine .inl ⟨.wrongIndent, ?_, ?_⟩
      · simp [bind, Except.bind, none]
      · simp [bind, Except.bind, noPlace]
    · refine .inr ⟨inside, entered, ?_, ?_, enters.unit, enters.parents, enters.suffix⟩
      · simp [bind, Except.bind, opened, pure, Except.pure]
      · simp [bind, Except.bind, found, pure, Except.pure]

/-- What reads rows into a tree does the same as what reads them alone. -/
inductive Grows (tree : Placed) (lines : List Nat) :
    Except LexError (List Row) → Except LexError (Unit × Slots) → Prop where
  | ok (rows : List Row) {after : Slots} (holes : Nat → List Placed) (plants : Plants [] after (fill holes tree))
      (none : ∀ place ∈ tree.places, place ∉ lines → holes place = [])
      (spread : Spread holes lines (Row.nest rows)) : Grows tree lines (.ok rows) (.ok ((), after))
  | error {error : LexError} : Grows tree lines (.error error) (.error error)

section

variable {stands : Stands outline nesting slots tree} {inside : Outline} {entered : Nesting} {after : Slots}
  {inner : Placed} {innermost : Nat} {row : Row}

theorem Stands.Enters.parent_opens (enters : stands.Enters inside entered) :
    Opens tree entered.parent inside.isText := by
  have parents := enters.parents
  unfold Nesting.parent Outline.isText
  generalize entered.parents = places at parents ⊢
  cases all : inside.parents with
  | nil =>
    rw [all] at parents
    cases parents with
    | cons opens _ => exact opens
  | cons text rest =>
    rw [all] at parents
    cases parents with
    | cons opens _ => exact opens

/-- After a row, the lines nested in it and those that it is nested in are open. -/
theorem Stands.next (enters : stands.Enters inside entered)
    (plants : Plants [] after (graft entered.parent inner tree))
    (chain : Chained inner innermost row.line row.chained) (headed : row.Headed) {last : Option Nat}
    (is : last.or (after.lastLine? entered.parent) = some innermost) :
    Stands { inside with last := some row.innermost.nestsText } { entered with chained := last } after
      (graft entered.parent inner tree) := by
  have goal := enters.parent_opens
  have here : Nesting.last? { entered with chained := last } after = some innermost := is
  have opens := chain.opens headed.line headed.chained
  refine ⟨plants, enters.unit, ?_, ?_, ?_⟩
  · exact enters.parents.imp fun place text opens => opens.graft stands.plants.nodup goal
  · rw [here]
    exact .cons (opens.grafted goal.mem) .nil
  · unfold Nesting.lines
    rw [here]
    refine List.nodup_cons.mpr ⟨fun member => ?_, enters.suffix.sublist.nodup stands.once⟩
    exact apart_of_graft plants.nodup goal.mem (stands.open_mem _ (enters.suffix.subset member)) chain.mem

/-- Rows that are read after a row, with the row. -/
theorem Stands.Enters.grow (enters : stands.Enters inside entered)
    (plants : Plants [] after (graft entered.parent inner tree))
    (chain : Chained inner innermost row.line row.chained) (deep : row.depth = inside.depth) {rows : List Row}
    {final : Slots} {holes : Nat → List Placed}
    (done : Plants [] final (fill holes (graft entered.parent inner tree)))
    (none : ∀ place ∈ (graft entered.parent inner tree).places, place ∉ innermost :: entered.parents → holes place = [])
    (spread : Spread holes (innermost :: entered.parents) (Row.nest rows)) :
    Grows tree (nesting.lines slots) (.ok (row :: rows)) (.ok ((), final)) := by
  have goal := enters.parent_opens
  have apart := apart_of_graft plants.nodup goal.mem
  have innerOnce : inner.places.Nodup := nodup_of_mem plants.nodup (grafted_mem goal.mem)
  have parents : entered.parents = entered.parent :: entered.parents.tail := by
    have lengths := enters.parents.length_eq
    unfold Nesting.parent
    cases all : entered.parents with
    | nil =>
      rw [all, List.length_append] at lengths
      simp at lengths
    | cons => rfl
  obtain ⟨closed, lines⟩ := enters.suffix
  have once : (closed ++ entered.parents).Nodup := lines ▸ stands.once
  have other (place : Nat) (old : place ∈ tree.places) (shut : place ∉ entered.parents) :
      (if place = entered.parent then [inner] else []).map (fill holes) ++ holes place = [] := by
    have notParent : place ≠ entered.parent := fun same => shut (same ▸ parents ▸ List.mem_cons_self)
    rw [if_neg notParent]
    refine none place (places_subset_graft _ inner tree old) fun member => ?_
    rcases List.mem_cons.mp member with rfl | member
    · exact apart old chain.mem
    · exact shut member
  have innerNone (place : Nat) (inside : place ∈ inner.places) (notLast : place ≠ innermost) : holes place = [] := by
    refine none place (places_of_mem (grafted_mem goal.mem) inside) fun member => ?_
    rcases List.mem_cons.mp member with rfl | member
    · exact notLast rfl
    · exact apart (stands.open_mem _ (enters.suffix.subset member)) inside
  have depth : entered.parents.tail.length = row.depth := by
    have lengths := enters.parents.length_eq
    rw [parents, List.length_cons, List.length_append, List.length_singleton] at lengths
    rw [deep]
    unfold Outline.depth
    omega
  rw [parents] at spread once
  have parentOnce := (List.nodup_cons.mp (List.nodup_append'.mp once).2.1).1
  have put := spread.put parentOnce depth chain innerOnce innerNone
  rw [← parents] at put once
  unfold graft at done
  rw [fill_fill] at done
  refine .ok _ _ done (fun place old shut => other place old fun member => shut (enters.suffix.subset member)) ?_
  rw [← lines]
  refine Spread.close closed (fun place member => ?_) (by rw [parents, List.length_cons, depth]) put
  refine other place (stands.open_mem _ (lines ▸ List.mem_append_left _ member)) fun again => ?_
  exact (List.nodup_append'.mp once).2.2 member again

end

theorem rows_grow (stands : Stands outline nesting slots tree) (input : Input) :
    Grows tree (nesting.lines slots) (Document.readRows outline input) (rows nesting input slots) := by
  fun_induction Document.readRows outline input generalizing slots tree nesting with
  | case1 outline input atEnd =>
    rw [rows, dif_pos atEnd]
    refine .ok [] (fun _ => []) ?_ (fun _ _ _ => rfl) (.nil fun _ _ => rfl)
    rw [fill_none]
    exact stands.plants
  | case2 =>
    rename_i outline input more content _ atEnd step
    rw [rows, dif_neg more]
    dsimp only
    rw [if_pos atEnd]
    exact step stands
  | case3 =>
    rename_i outline input more content _ notAtEnd fault wrong
    rw [rows, dif_neg more]
    dsimp only
    rw [if_neg notAtEnd, bind_ok (show (get : LinkM Slots) slots = .ok (slots, slots) from rfl)]
    rcases stands.enter (input.takeWhile CharClass.isSpacing) with ⟨other, left, right⟩ | ⟨_, _, left, -⟩
    · cases wrong.symm.trans left
      rw [right]
      exact .error
    · cases wrong.symm.trans left
  | case4 =>
    rename_i outline input more content _ notAtEnd inside enters step
    rw [rows, dif_neg more]
    dsimp only
    rw [if_neg notAtEnd, bind_ok (show (get : LinkM Slots) slots = .ok (slots, slots) from rfl)]
    rcases stands.enter (input.takeWhile CharClass.isSpacing) with ⟨_, left, -⟩ | ⟨same, entered, left, right, enter⟩
    · cases enters.symm.trans left
    · cases enters.symm.trans left
      rw [right]
      dsimp only
      have rowed := row_rowed stands.plants enter.parent_opens input content
      have headed := Document.readRow_headed inside input content
      generalize Document.readRow inside input content = read at rowed headed ⊢
      generalize filled : row entered.parent input content slots = result at rowed
      cases rowed with
      | error =>
        rw [bind_error filled]
        exact .error
      | @ok parsed after inner innermost last plants chain is deep =>
        rw [bind_ok filled]
        have next := stands.next enter plants chain headed is
        have grows := step parsed next
        change Grows _ _ (Document.readRows _ (Document.finishLine parsed.rest) >>= fun rows =>
          pure (parsed.value :: rows)) _
        dsimp only [Parsed.map] at grows ⊢
        generalize Document.readRows _ (Document.finishLine parsed.rest) = read at grows ⊢
        generalize rows _ (Document.finishLine parsed.rest) after = result at grows ⊢
        cases grows with
        | error => exact .error
        | ok others holes done none spread =>
          have lines : Nesting.lines { entered with chained := last } after = innermost :: entered.parents := by
            unfold Nesting.lines
            rw [show Nesting.last? { entered with chained := last } after = some innermost from is]
            rfl
          rw [lines] at none spread
          exact enter.grow plants chain deep done none spread

end Linking

end HtmlTemplate
