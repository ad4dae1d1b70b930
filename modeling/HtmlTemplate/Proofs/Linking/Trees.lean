import Mathlib.Data.List.Perm.Basic
import Mathlib.Data.List.Forall2
import Mathlib.Data.List.Nodup
import HtmlTemplate.Token.Linking

/-! Trees of parts that are in a list. A tree says for each part of it at which place the part is, and the
list has what the tree says, with links between the parts. -/

namespace HtmlTemplate

/-- A part with its place in a list, and the parts in it. -/
structure Placed where
  place : Nat
  kind : TokenKind
  span : Span
  expr : Option Expr
  parts : List Placed

namespace Placed

/-- A part with nothing in it. -/
def leaf (place : Nat) (kind : TokenKind) (span : Span) (expr : Option Expr) : Placed :=
  { place, kind, span, expr, parts := [] }

/-- The places of the parts in a part. -/
def kids (tree : Placed) : List Nat := tree.parts.map place

def addAll (tree : Placed) (more : List Placed) : Placed := { tree with parts := tree.parts ++ more }

mutual

/-- A part, all parts in it, and so on. -/
def nodes : Placed → List Placed
  | ⟨place, kind, span, expr, parts⟩ => ⟨place, kind, span, expr, parts⟩ :: nodesAll parts

def nodesAll : List Placed → List Placed
  | [] => []
  | tree :: rest => nodes tree ++ nodesAll rest

end

def places (tree : Placed) : List Nat := tree.nodes.map place

mutual

/-- Puts trees into the parts at some places, after those that are in them. -/
def fill (holes : Nat → List Placed) : Placed → Placed
  | ⟨place, kind, span, expr, parts⟩ => ⟨place, kind, span, expr, fillAll holes parts ++ holes place⟩

def fillAll (holes : Nat → List Placed) : List Placed → List Placed
  | [] => []
  | tree :: rest => fill holes tree :: fillAll holes rest

end

/-- Puts a tree into the part at a place. -/
def graft (target : Nat) (more : Placed) (tree : Placed) : Placed :=
  fill (fun place => if place = target then [more] else []) tree

mutual

/-- Changes the span of the part at a place. -/
def respan (target : Nat) (span : Span) : Placed → Placed
  | ⟨place, kind, old, expr, parts⟩ =>
    ⟨place, kind, if place = target then span else old, expr, respanAll target span parts⟩

def respanAll (target : Nat) (span : Span) : List Placed → List Placed
  | [] => []
  | tree :: rest => respan target span tree :: respanAll target span rest

end

/-- A tree without its places is a part as it is read. -/
inductive Matches : Placed → Token → Prop where
  | intro {place : Nat} {kind : TokenKind} {span : Span} {expr : Option Expr} {text : String}
      {parts : List Placed} {children : List Token} (inner : List.Forall₂ Matches parts children) :
      Matches ⟨place, kind, span, expr, parts⟩ ⟨kind, span, text, expr, children⟩

/-! Nodes. -/

theorem nodesAll_eq (parts : List Placed) : nodesAll parts = parts.flatMap nodes := by
  induction parts with
  | nil => rfl
  | cons tree rest step => rw [nodesAll, step, List.flatMap_cons]

theorem nodes_eq (tree : Placed) : tree.nodes = tree :: tree.parts.flatMap nodes := by
  obtain ⟨place, kind, span, expr, parts⟩ := tree
  rw [nodes, nodesAll_eq]

theorem mem_nodes_self (tree : Placed) : tree ∈ tree.nodes := by
  rw [nodes_eq]
  exact List.mem_cons_self

theorem nodes_of_part {tree part : Placed} (member : part ∈ tree.parts) : part.nodes ⊆ tree.nodes := by
  rw [nodes_eq tree]
  exact fun node inside => List.mem_cons_of_mem _ (List.mem_flatMap.mpr ⟨part, member, inside⟩)

theorem places_eq (tree : Placed) : tree.places = tree.place :: tree.parts.flatMap places := by
  unfold places
  rw [nodes_eq, List.map_cons, List.map_flatMap]

theorem places_addAll (tree : Placed) (more : List Placed) :
    (tree.addAll more).places = tree.places ++ more.flatMap places := by
  rw [places_eq, places_eq tree]
  exact congrArg (tree.place :: ·) List.flatMap_append

theorem mem_places_self (tree : Placed) : tree.place ∈ tree.places := List.mem_map_of_mem (mem_nodes_self tree)

theorem kids_subset_places (tree : Placed) : tree.kids ⊆ tree.places := by
  intro place member
  obtain ⟨part, inside, rfl⟩ := List.mem_map.mp member
  exact List.mem_map_of_mem (nodes_of_part inside (mem_nodes_self part))

/-- A property of trees holds of one if it holds of a part whenever it holds of those in it. -/
theorem ofParts {holds : Placed → Prop} (step : ∀ tree, (∀ part ∈ tree.parts, holds part) → holds tree)
    (tree : Placed) : holds tree :=
  step tree fun part member =>
    have : sizeOf part < sizeOf tree := by
      obtain ⟨place, kind, span, expr, parts⟩ := tree
      have := List.sizeOf_lt_of_mem member
      simp only [Placed.mk.sizeOf_spec]
      simp only at this
      omega
    ofParts step part
termination_by sizeOf tree

theorem mem_nodes_trans {tree node inner : Placed} (outside : node ∈ tree.nodes) (inside : inner ∈ node.nodes) :
    inner ∈ tree.nodes := by
  induction tree using ofParts with
  | step tree step =>
    rw [nodes_eq tree] at outside
    rcases List.mem_cons.mp outside with rfl | below
    · exact inside
    · obtain ⟨part, member, found⟩ := List.mem_flatMap.mp below
      exact nodes_of_part member (step part member found)

theorem kids_subset {tree node : Placed} (member : node ∈ tree.nodes) : node.kids ⊆ tree.places := by
  intro place kid
  obtain ⟨inner, inside, rfl⟩ := List.mem_map.mp (kids_subset_places node kid)
  exact List.mem_map_of_mem (mem_nodes_trans member inside)

/-! Trees that are put into others. -/

theorem fillAll_eq (holes : Nat → List Placed) (parts : List Placed) :
    fillAll holes parts = parts.map (fill holes) := by
  induction parts with
  | nil => rfl
  | cons tree rest step => rw [fillAll, step, List.map_cons]

theorem fill_eq (holes : Nat → List Placed) (tree : Placed) :
    fill holes tree = { tree with parts := tree.parts.map (fill holes) ++ holes tree.place } := by
  obtain ⟨place, kind, span, expr, parts⟩ := tree
  rw [fill, fillAll_eq]

/-- Trees that are put into trees which are put into others. -/
theorem fill_fill (first second : Nat → List Placed) (tree : Placed) :
    fill second (fill first tree) = fill (fun place => (first place).map (fill second) ++ second place) tree := by
  induction tree using ofParts with
  | step tree step =>
    rw [fill_eq second, fill_eq first, fill_eq _ tree, List.map_append, List.map_map]
    have same : tree.parts.map (fill second ∘ fill first) =
        tree.parts.map (fill fun place => (first place).map (fill second) ++ second place) :=
      List.map_congr_left step
    rw [same, List.append_assoc]

theorem fill_congr {first second : Nat → List Placed} {tree : Placed}
    (same : ∀ place ∈ tree.places, first place = second place) : fill first tree = fill second tree := by
  induction tree using ofParts with
  | step tree step =>
    rw [places_eq] at same
    have inner : tree.parts.map (fill first) = tree.parts.map (fill second) :=
      List.map_congr_left fun part member => step part member fun place inside =>
        same place (List.mem_cons_of_mem _ (List.mem_flatMap.mpr ⟨part, member, inside⟩))
    rw [fill_eq, fill_eq second, inner, same _ List.mem_cons_self]

theorem fill_none (tree : Placed) : fill (fun _ => []) tree = tree := by
  induction tree using ofParts with
  | step tree step =>
    rw [fill_eq, List.append_nil, (List.map_congr_left step).trans (List.map_id _)]
    cases tree
    rfl

theorem fill_of_none {holes : Nat → List Placed} {tree : Placed} (none : ∀ place ∈ tree.places, holes place = []) :
    fill holes tree = tree :=
  (fill_congr none).trans (fill_none tree)

theorem fill_addAll {holes : Nat → List Placed} {tree : Placed} (none : holes tree.place = []) (more : List Placed) :
    fill holes (tree.addAll more) = (fill holes tree).addAll (more.map (fill holes)) := by
  rw [fill_eq, fill_eq holes tree]
  unfold addAll
  rw [none, List.append_nil, List.append_nil, List.map_append]

/-- Trees that are put into the first part of a tree and nowhere else in it. -/
theorem fill_root {holes : Nat → List Placed} {tree : Placed} (once : tree.places.Nodup)
    (none : ∀ place ∈ tree.places, place ≠ tree.place → holes place = []) :
    fill holes tree = tree.addAll (holes tree.place) := by
  rw [places_eq, List.nodup_cons] at once
  have inner : tree.parts.map (fill holes) = tree.parts := by
    refine (List.map_congr_left fun part member => fill_of_none fun place inside => ?_).trans (List.map_id _)
    have below : place ∈ tree.parts.flatMap places := List.mem_flatMap.mpr ⟨part, member, inside⟩
    refine none place ?_ fun same => once.1 (same ▸ below)
    exact places_eq tree ▸ List.mem_cons_of_mem _ below
  rw [fill_eq, inner]
  rfl

section

variable (target : Nat) (more : Placed)

theorem graft_eq (tree : Placed) :
    graft target more tree = { tree with
      parts := tree.parts.map (graft target more) ++ if tree.place = target then [more] else [] } :=
  fill_eq _ tree

theorem place_graft (tree : Placed) : (graft target more tree).place = tree.place := by
  rw [graft_eq]

theorem kind_graft (tree : Placed) : (graft target more tree).kind = tree.kind := by
  rw [graft_eq]

theorem kids_graft (tree : Placed) :
    (graft target more tree).kids = tree.kids ++ if tree.place = target then [more.place] else [] := by
  unfold kids
  rw [graft_eq, List.map_append, List.map_map]
  congr 1
  · exact List.map_congr_left fun part _ => place_graft target more part
  · split <;> rfl

theorem mem_nodes_graft (tree : Placed) {node : Placed} (member : node ∈ (graft target more tree).nodes) :
    (∃ old ∈ tree.nodes, node = graft target more old) ∨ node ∈ more.nodes := by
  induction tree using ofParts with
  | step tree step =>
    rw [nodes_eq, graft_eq] at member
    rcases List.mem_cons.mp member with rfl | below
    · exact .inl ⟨tree, mem_nodes_self tree, (graft_eq target more tree).symm⟩
    · obtain ⟨part, inside, found⟩ := List.mem_flatMap.mp below
      rcases List.mem_append.mp inside with inside | inside
      · obtain ⟨old, oldInside, rfl⟩ := List.mem_map.mp inside
        refine (step old oldInside found).imp_left ?_
        rintro ⟨node, nodeInside, rfl⟩
        exact ⟨node, nodes_of_part oldInside nodeInside, rfl⟩
      · split at inside
        · rw [List.mem_singleton.mp inside] at found
          exact .inr found
        · cases inside

/-- A tree that is put into the first part of another one. -/
theorem graft_root {tree : Placed} (once : tree.places.Nodup) :
    graft tree.place more tree = tree.addAll [more] :=
  (fill_root once fun _ _ other => if_neg other).trans (congrArg tree.addAll (if_pos rfl))

/-- The places of a tree that is put into another one come once for each place where it is put. -/
theorem places_graft (tree : Placed) :
    (graft target more tree).places.Perm
      (tree.places ++ (List.replicate (tree.places.count target) more.places).flatten) := by
  induction tree using ofParts with
  | step tree step =>
    have inner : ∀ parts : List Placed, (∀ part ∈ parts, part ∈ tree.parts) →
        ((parts.map (graft target more)).flatMap places).Perm
          (parts.flatMap places ++
            (List.replicate ((parts.flatMap places).count target) more.places).flatten) := by
      intro parts
      induction parts with
      | nil => exact fun _ => .refl _
      | cons part rest further =>
        intro all
        obtain ⟨member, others⟩ := List.forall_mem_cons.mp all
        rw [List.map_cons, List.flatMap_cons, List.flatMap_cons, List.count_append, List.replicate_add,
          List.flatten_append]
        refine ((step part member).append (further others)).trans ?_
        rw [List.append_assoc, List.append_assoc]
        refine .append_left _ ?_
        rw [← List.append_assoc, ← List.append_assoc]
        exact .append_right _ List.perm_append_comm
    rw [places_eq, graft_eq, places_eq tree, List.flatMap_append, List.count_cons]
    refine .cons _ ?_
    refine ((inner tree.parts fun _ => id).append_right _).trans ?_
    rw [List.append_assoc]
    refine .append_left _ ?_
    by_cases same : tree.place = target
    · rw [if_pos same, if_pos (beq_iff_eq.mpr same), List.replicate_add, List.flatten_append,
        List.flatMap_singleton, List.replicate_one, List.flatten_singleton]
    · rw [if_neg same, if_neg (mt beq_iff_eq.mp same), Nat.add_zero, List.flatMap_nil, List.append_nil]

end

/-! Spans. -/

section

variable (target : Nat) (span : Span)

theorem respanAll_eq (parts : List Placed) : respanAll target span parts = parts.map (respan target span) := by
  induction parts with
  | nil => rfl
  | cons tree rest step => rw [respanAll, step, List.map_cons]

theorem respan_eq (tree : Placed) :
    tree.respan target span = { tree with
      span := if tree.place = target then span else tree.span
      parts := tree.parts.map (respan target span) } := by
  obtain ⟨place, kind, old, expr, parts⟩ := tree
  rw [respan, respanAll_eq]

theorem nodes_respan (tree : Placed) : (tree.respan target span).nodes = tree.nodes.map (respan target span) := by
  induction tree using ofParts with
  | step tree step =>
    rw [nodes_eq, nodes_eq tree, List.map_cons, List.map_flatMap, respan_eq]
    congr 1
    rw [List.flatMap_map]
    exact List.flatMap_congr step

theorem kids_respan (tree : Placed) : (tree.respan target span).kids = tree.kids := by
  unfold kids
  rw [respan_eq, List.map_map]
  exact List.map_congr_left fun part _ => by rw [Function.comp_apply, respan_eq]

theorem places_respan (tree : Placed) : (tree.respan target span).places = tree.places := by
  unfold places
  rw [nodes_respan, List.map_map]
  exact List.map_congr_left fun part _ => by rw [Function.comp_apply, respan_eq]

theorem respan_of_not_mem {tree : Placed} (outside : target ∉ tree.places) : tree.respan target span = tree := by
  induction tree using ofParts with
  | step tree step =>
    rw [places_eq] at outside
    have other : tree.place ≠ target := fun same => outside (same ▸ List.mem_cons_self)
    have same : tree.parts.map (respan target span) = tree.parts := by
      refine (List.map_congr_left fun part member => step part member fun inside => outside ?_).trans
        (List.map_id _)
      exact List.mem_cons_of_mem _ (List.mem_flatMap.mpr ⟨part, member, inside⟩)
    rw [respan_eq, if_neg other, same]
    cases tree
    rfl

theorem respan_root {tree : Placed} (once : tree.places.Nodup) :
    tree.respan tree.place span = { tree with span } := by
  rw [places_eq, List.nodup_cons] at once
  have same : tree.parts.map (respan tree.place span) = tree.parts := by
    refine (List.map_congr_left fun part member => respan_of_not_mem _ span fun inside => once.1 ?_).trans
      (List.map_id _)
    exact List.mem_flatMap.mpr ⟨part, member, inside⟩
  rw [respan_eq, if_pos rfl, same]

end

end Placed

/-! Lists of parts that hold trees. A tree is made at the end of a list, on its own; once it is complete it
is put into another one, and what is before both of them stays as it is. -/

variable {slots base middle : Slots} {tree outer inner : Placed} {target : Nat}

namespace Slots

/-- What becomes of the part at a place when a part is put into another one, in which it comes after the
last one. -/
def moved (last : Option Nat) (parent child place : Nat) (slot : Slot) : Slot :=
  { slot with
    parent := if child = place then some parent else slot.parent
    prev := if child = place then last else slot.prev
    next := if last = some place then some child else if child = place then none else slot.next
    child := if parent = place ∧ last = none then some child else slot.child
    tail := if parent = place then some child else slot.tail }

theorem get_append (slots : Slots) (parent child place : Nat) :
    (slots.append parent child)[place]? = slots[place]?.map (moved (slots.tail? parent) parent child place) := by
  unfold append
  dsimp only
  generalize slots.tail? parent = last
  cases last with
  | none =>
    simp only [List.getElem?_modify, Option.map_eq_map, Option.map_map]
    refine congrFun (congrArg Option.map (funext fun slot => ?_)) _
    by_cases isParent : parent = place <;> by_cases isChild : child = place <;>
      simp [moved, isParent, isChild]
  | some last =>
    simp only [List.getElem?_modify, Option.map_eq_map, Option.map_map]
    refine congrFun (congrArg Option.map (funext fun slot => ?_)) _
    by_cases isParent : parent = place <;> by_cases isChild : child = place <;>
      by_cases isLast : last = place <;> simp [moved, isParent, isChild, isLast]

theorem length_append (slots : Slots) (parent child : Nat) :
    (slots.append parent child).length = slots.length := by
  unfold append
  dsimp only
  cases slots.tail? parent <;> simp only [List.length_modify]

theorem get_setSpan (slots : Slots) (target : Nat) (span : Span) (place : Nat) :
    (slots.setSpan target span)[place]? =
      slots[place]?.map fun slot => if target = place then { slot with span } else slot := by
  unfold setSpan
  rw [List.getElem?_modify]
  rfl

theorem length_setSpan (slots : Slots) (target : Nat) (span : Span) :
    (slots.setSpan target span).length = slots.length :=
  List.length_modify ..

/-- A list has a part, and links it and the parts in it with one another. -/
structure Links (slots : Slots) (node : Placed) : Prop where
  slot : ∃ slot, slots[node.place]? = some slot ∧
    (slot.kind = node.kind ∧ slot.span = node.span ∧ slot.expr = node.expr) ∧
    slot.child = node.kids.head? ∧ slot.tail = node.kids.getLast?
  kids : ∀ before kid after, node.kids = before ++ kid :: after → ∃ slot, slots[kid]? = some slot ∧
    slot.parent = some node.place ∧ slot.prev = before.getLast? ∧ slot.next = after.head?

namespace Links

variable {node other : Placed} {kid : Nat}

theorem tail? (links : Links slots node) : slots.tail? node.place = node.kids.getLast? := by
  obtain ⟨slot, found, -, -, tail⟩ := links.slot
  unfold Slots.tail?
  rw [found]
  exact tail

theorem parent (links : Links slots node) (member : kid ∈ node.kids) :
    ∃ slot, slots[kid]? = some slot ∧ slot.parent = some node.place := by
  obtain ⟨before, after, split⟩ := List.append_of_mem member
  obtain ⟨slot, found, parent, -⟩ := links.kids before kid after split
  exact ⟨slot, found, parent⟩

/-- A part is in one part only. -/
theorem unique (links : Links slots node) (member : kid ∈ node.kids) (others : Links slots other)
    (same : kid ∈ other.kids) : node.place = other.place := by
  obtain ⟨slot, found, parent⟩ := links.parent member
  obtain ⟨again, foundAgain, otherParent⟩ := others.parent same
  obtain rfl : slot = again := Option.some.inj (found.symm.trans foundAgain)
  exact Option.some.inj (parent.symm.trans otherParent)

/-- Only the last one of the parts in a part is at the place that ends their list. -/
theorem last (links : Links slots node) {before after : List Nat} (split : node.kids = before ++ kid :: after)
    (last : node.kids.getLast? = some kid) : after = [] := by
  obtain ⟨slot, found, -, -, next⟩ := links.kids before kid after split
  obtain ⟨front, ends⟩ := List.getLast?_eq_some_iff.mp last
  obtain ⟨again, foundAgain, -, -, none⟩ := links.kids front kid [] ends
  obtain rfl : slot = again := Option.some.inj (found.symm.trans foundAgain)
  exact List.head?_eq_none_iff.mp (next.symm.trans none)

theorem of_kept (links : Links slots node) {more : Slots}
    (kept : ∀ place < slots.length, more[place]? = slots[place]?) : Links more node := by
  have found {place : Nat} {slot : Slot} (found : slots[place]? = some slot) : more[place]? = some slot :=
    (kept place (List.getElem?_eq_some_iff.mp found).1).trans found
  refine ⟨?_, fun before kid after split => ?_⟩
  · obtain ⟨slot, here, linked⟩ := links.slot
    exact ⟨slot, found here, linked⟩
  · obtain ⟨slot, here, linked⟩ := links.kids before kid after split
    exact ⟨slot, found here, linked⟩

theorem respan (links : Links slots node) (target : Nat) (span : Span) :
    Links (slots.setSpan target span) (node.respan target span) := by
  refine ⟨?_, fun before kid after split => ?_⟩
  · obtain ⟨slot, found, ⟨kind, old, expr⟩, child, tail⟩ := links.slot
    rw [Placed.kids_respan, Placed.respan_eq, get_setSpan, found]
    refine ⟨_, rfl, ?_⟩
    by_cases same : target = node.place
    · simp only [if_pos same, if_pos same.symm]
      exact ⟨⟨kind, trivial, expr⟩, child, tail⟩
    · simp only [if_neg same, if_neg (Ne.symm same)]
      exact ⟨⟨kind, old, expr⟩, child, tail⟩
  · rw [Placed.kids_respan] at split
    obtain ⟨slot, found, linked⟩ := links.kids before kid after split
    rw [Placed.respan_eq, get_setSpan, found]
    refine ⟨_, rfl, ?_⟩
    split <;> exact linked

/-! A part is put into another one. -/

theorem append_slot (links : Links slots node) (target child : Nat) :
    ∃ slot, (slots.append target child)[node.place]? = some slot ∧
      (slot.kind = node.kind ∧ slot.span = node.span ∧ slot.expr = node.expr) ∧
      slot.child = (node.kids ++ if node.place = target then [child] else []).head? ∧
      slot.tail = (node.kids ++ if node.place = target then [child] else []).getLast? := by
  obtain ⟨slot, found, data, first, tail⟩ := links.slot
  rw [get_append, found]
  refine ⟨_, rfl, data, ?_⟩
  unfold moved
  by_cases same : node.place = target
  · have ends : slots.tail? target = node.kids.getLast? := same ▸ links.tail?
    simp only [same, true_and, if_true, ends, List.getLast?_eq_none_iff, List.getLast?_concat]
    cases kids : node.kids with
    | nil => exact ⟨rfl, trivial⟩
    | cons kid rest =>
      rw [kids] at first
      exact ⟨first, trivial⟩
  · simp only [same, Ne.symm same, false_and, if_false, List.append_nil]
    exact ⟨first, tail⟩

theorem append_kid (links : Links slots node) {before after : List Nat} (split : node.kids = before ++ kid :: after)
    (target : Nat) {child : Nat} (other : child ≠ kid) :
    ∃ slot, (slots.append target child)[kid]? = some slot ∧ slot.parent = some node.place ∧
      slot.prev = before.getLast? ∧
      slot.next = if slots.tail? target = some kid then some child else after.head? := by
  obtain ⟨slot, found, parent, prev, next⟩ := links.kids before kid after split
  rw [get_append, found]
  refine ⟨_, rfl, ?_⟩
  unfold moved
  simp only [if_neg other]
  exact ⟨parent, prev, by rw [next]⟩

/-- Nothing becomes of the parts that nothing is put into. -/
theorem append_other (links : Links slots node) {child : Nat} (notTarget : node.place ≠ target)
    (free : child ∉ node.kids) (notLast : ∀ kid ∈ node.kids, slots.tail? target ≠ some kid) :
    Links (slots.append target child) node := by
  refine ⟨?_, fun before kid after split => ?_⟩
  · have changed := links.append_slot target child
    rwa [if_neg notTarget, List.append_nil] at changed
  · have member : kid ∈ node.kids := split ▸ List.mem_append_right _ List.mem_cons_self
    have changed := links.append_kid split target fun (same : child = kid) => free (same ▸ member)
    rwa [if_neg (notLast kid member)] at changed

/-- The part that is put into another one comes after those that are in it. -/
theorem append_target (links : Links slots node) (here : inner.place < slots.length)
    (free : inner.place ∉ node.kids) :
    Links (slots.append node.place inner.place) (.graft node.place inner node) := by
  refine ⟨?_, fun before kid after split => ?_⟩
  · have changed := links.append_slot node.place inner.place
    rw [← Placed.kids_graft] at changed
    rwa [Placed.graft_eq] at changed ⊢
  · rw [Placed.kids_graft, if_pos rfl] at split
    rw [Placed.place_graft]
    rcases List.eq_nil_or_concat after with rfl | ⟨front, final, rfl⟩
    · obtain ⟨rfl, rfl⟩ : node.kids = before ∧ inner.place = kid := by
        simpa using List.append_inj' split rfl
      rw [get_append, List.getElem?_eq_getElem here]
      refine ⟨_, rfl, ?_⟩
      have other : slots.tail? node.place ≠ some inner.place := fun same =>
        free (List.mem_of_getLast? (links.tail?.symm.trans same))
      unfold moved
      simp only [if_true, if_neg other]
      exact ⟨trivial, links.tail?, rfl⟩
    · obtain ⟨kids, rfl⟩ : node.kids = before ++ kid :: front ∧ inner.place = final := by
        rw [List.concat_eq_append, ← List.cons_append, ← List.append_assoc] at split
        simpa using List.append_inj' split rfl
      have member : kid ∈ node.kids := kids ▸ List.mem_append_right _ List.mem_cons_self
      obtain ⟨slot, found, parent, prev, next⟩ :=
        links.append_kid kids node.place fun (same : inner.place = kid) => free (same ▸ member)
      refine ⟨slot, found, parent, prev, next.trans ?_⟩
      rw [links.tail?, List.concat_eq_append]
      by_cases isLast : node.kids.getLast? = some kid
      · rw [if_pos isLast, links.last kids isLast]
        rfl
      · rw [if_neg isLast]
        cases front with
        | nil => exact absurd (kids ▸ List.getLast?_concat) isLast
        | cons => rfl

end Links

/-- A part that is in no other one. -/
def Free (slots : Slots) (place : Nat) : Prop :=
  ∃ slot, slots[place]? = some slot ∧ slot.parent = none ∧ slot.prev = none ∧ slot.next = none

theorem Links.notFree {node : Placed} (links : Links slots node) {place : Nat} (member : place ∈ node.kids) :
    ¬Free slots place := by
  rintro ⟨slot, found, none, -⟩
  obtain ⟨again, foundAgain, parent⟩ := links.parent member
  obtain rfl : slot = again := Option.some.inj (found.symm.trans foundAgain)
  cases none.symm.trans parent

/-- A tree that is in no other one is put into a part of another tree. -/
theorem links_append (here : target ∈ outer.places) (outside : ∀ node ∈ outer.nodes, Links slots node)
    (inside : ∀ node ∈ inner.nodes, Links slots node) (free : Free slots inner.place)
    (apart : List.Disjoint outer.places inner.places) :
    ∀ node ∈ (Placed.graft target inner outer).nodes, Links (slots.append target inner.place) node := by
  obtain ⟨goal, goalInside, goalPlace⟩ := List.mem_map.mp here
  have inGoal {place : Nat} (same : slots.tail? target = some place) : place ∈ goal.kids :=
    List.mem_of_getLast? ((outside goal goalInside).tail?.symm.trans (goalPlace ▸ same))
  intro node member
  rcases Placed.mem_nodes_graft target inner outer member with ⟨old, oldInside, rfl⟩ | below
  · have links := outside old oldInside
    have notKid : inner.place ∉ old.kids := fun member => links.notFree member free
    by_cases same : old.place = target
    · obtain ⟨slot, found, -⟩ := free
      exact same ▸ links.append_target (List.getElem?_eq_some_iff.mp found).1 notKid
    · have stays := links.append_other same notKid fun kid member isLast =>
        same ((links.unique member (outside goal goalInside) (inGoal isLast)).trans goalPlace)
      have kids := Placed.kids_graft target inner old
      rw [if_neg same, List.append_nil] at kids
      refine ⟨?_, ?_⟩
      · rw [kids, Placed.graft_eq]
        exact stays.slot
      · rw [kids, Placed.place_graft]
        exact stays.kids
  · have links := inside node below
    refine links.append_other ?_ (fun member => links.notFree member free) fun kid member isLast => ?_
    · rintro rfl
      exact apart here (List.mem_map_of_mem below)
    · exact apart (Placed.kids_subset goalInside (inGoal isLast)) (Placed.kids_subset below member)

/-- The parts that a list has got since it was another one are a tree that is in no other one. -/
structure Plants (base slots : Slots) (tree : Placed) : Prop where
  longer : base.length ≤ slots.length
  kept : ∀ place < base.length, slots[place]? = base[place]?
  linked : ∀ node ∈ tree.nodes, Links slots node
  free : Free slots tree.place
  all : tree.places.Perm (List.range' base.length (slots.length - base.length))

namespace Plants

theorem mem_places (plants : Plants base slots tree) {place : Nat} :
    place ∈ tree.places ↔ base.length ≤ place ∧ place < slots.length := by
  have longer := plants.longer
  rw [plants.all.mem_iff, List.mem_range'_1]
  omega

theorem nodup (plants : Plants base slots tree) : tree.places.Nodup :=
  plants.all.nodup_iff.mpr List.nodup_range'

theorem alloc (slots : Slots) (kind : TokenKind) (span : Span) (expr : Option Expr) :
    Plants slots (slots ++ [.lone kind span expr]) (.leaf slots.length kind span expr) := by
  have found : (slots ++ [Slot.lone kind span expr])[slots.length]? = some (.lone kind span expr) :=
    List.getElem?_concat_length
  constructor
  · simp
  · exact fun place before => List.getElem?_append_left before
  · intro node member
    obtain rfl : node = .leaf slots.length kind span expr := by
      simpa [Placed.nodes_eq, Placed.leaf] using member
    refine ⟨⟨_, found, ⟨rfl, rfl, rfl⟩, rfl, rfl⟩, fun before kid after split => ?_⟩
    have none : (Placed.leaf slots.length kind span expr).kids = [] := rfl
    rw [none] at split
    simp at split
  · exact ⟨_, found, rfl, rfl, rfl⟩
  · simp [Placed.places_eq, Placed.leaf]

/-- A tree that is in no other one is put into a part of another such tree. Both have been made since the
list was another one. -/
theorem append (longer : base.length ≤ slots.length) (kept : ∀ place < base.length, slots[place]? = base[place]?)
    (outside : ∀ node ∈ outer.nodes, Links slots node) (inside : ∀ node ∈ inner.nodes, Links slots node)
    (free : Free slots outer.place) (lone : Free slots inner.place)
    (all : (outer.places ++ inner.places).Perm (List.range' base.length (slots.length - base.length)))
    (here : target ∈ outer.places) :
    Plants base (slots.append target inner.place) (.graft target inner outer) := by
  have once : (outer.places ++ inner.places).Nodup := all.nodup_iff.mpr List.nodup_range'
  obtain ⟨outerOnce, -, apart⟩ := List.nodup_append'.mp once
  have later {place : Nat} (member : place ∈ outer.places ++ inner.places) : base.length ≤ place :=
    (List.mem_range'_1.mp (all.mem_iff.mp member)).1
  have linked := links_append here outside inside lone apart
  obtain ⟨goal, goalInside, goalPlace⟩ := List.mem_map.mp here
  have last : slots.tail? target = goal.kids.getLast? := goalPlace ▸ (outside goal goalInside).tail?
  refine ⟨?_, fun place before => ?_, linked, ?_, ?_⟩
  · rw [length_append]
    exact longer
  · have notTarget : target ≠ place := fun same =>
      absurd (later (List.mem_append_left _ (same ▸ here))) (by omega)
    have notInner : inner.place ≠ place := fun same =>
      absurd (later (List.mem_append_right _ (same ▸ Placed.mem_places_self inner))) (by omega)
    have notLast : slots.tail? target ≠ some place := fun same =>
      absurd (later (List.mem_append_left _
        (Placed.kids_subset goalInside (List.mem_of_getLast? (last ▸ same))))) (by omega)
    have same : moved (slots.tail? target) target inner.place place = id := by
      funext slot
      unfold moved
      simp only [notTarget, notInner, notLast, false_and, if_false]
      rfl
    rw [get_append, same, Option.map_id]
    exact kept place before
  · have notLast : slots.tail? target ≠ some outer.place := fun same =>
      (outside goal goalInside).notFree (List.mem_of_getLast? (last ▸ same)) free
    obtain ⟨slot, found, alone⟩ := free
    have other : inner.place ≠ outer.place := fun same =>
      apart (Placed.mem_places_self outer) (same ▸ Placed.mem_places_self inner)
    rw [Placed.place_graft]
    refine ⟨_, (get_append ..).trans (congrArg _ found), ?_⟩
    unfold moved
    simp only [if_neg other, if_neg notLast]
    exact alone
  · have one : outer.places.count target = 1 := List.count_eq_one_of_mem outerOnce here
    rw [length_append]
    refine (Placed.places_graft target inner outer).trans ?_
    rw [one, List.replicate_one, List.flatten_singleton]
    exact all

section

variable (first : Plants base middle tree)
include first

/-- What has been made first stays as it is while another tree is made. -/
theorem stays (more : Plants middle slots inner) :
    (∀ node ∈ tree.nodes, Links slots node) ∧
      Free slots tree.place ∧ base.length ≤ slots.length ∧
      (∀ place < base.length, slots[place]? = base[place]?) ∧
      (tree.places ++ inner.places).Perm (List.range' base.length (slots.length - base.length)) := by
  have longer := first.longer
  have further := more.longer
  refine ⟨fun node member => (first.linked node member).of_kept more.kept, ?_, Nat.le_trans longer further, ?_, ?_⟩
  · obtain ⟨slot, found, free⟩ := first.free
    have before : tree.place < middle.length := (List.getElem?_eq_some_iff.mp found).1
    exact ⟨slot, (more.kept _ before).trans found, free⟩
  · exact fun place before => (more.kept place (by omega)).trans (first.kept place before)
  · have next : middle.length = base.length + (middle.length - base.length) := by omega
    have total : slots.length - base.length =
        (middle.length - base.length) + (slots.length - middle.length) := by omega
    rw [total, ← List.range'_append_1, ← next]
    exact first.all.append more.all

/-- A tree is put into one that has been made before it. -/
theorem graft (more : Plants middle slots inner) (here : target ∈ tree.places) :
    Plants base (slots.append target inner.place) (.graft target inner tree) := by
  obtain ⟨linked, lone, longer, kept, all⟩ := first.stays more
  exact append longer kept linked more.linked lone more.free all here

/-- A tree is put into one that has been made after it. -/
theorem under (more : Plants middle slots outer) (here : target ∈ outer.places) :
    Plants base (slots.append target tree.place) (.graft target tree outer) := by
  obtain ⟨linked, lone, longer, kept, all⟩ := first.stays more
  exact append longer kept more.linked linked more.free lone (List.perm_append_comm.trans all) here

end

theorem addAll (first : Plants base middle tree) (more : Plants middle slots inner) :
    Plants base (slots.append tree.place inner.place) (tree.addAll [inner]) := by
  have grafted := first.graft more (Placed.mem_places_self tree)
  rwa [Placed.graft_root _ first.nodup] at grafted

theorem addUnder (first : Plants base middle tree) (more : Plants middle slots outer) :
    Plants base (slots.append outer.place tree.place) (outer.addAll [tree]) := by
  have grafted := first.under more (Placed.mem_places_self outer)
  rwa [Placed.graft_root _ more.nodup] at grafted

theorem respan (plants : Plants base slots tree) (here : target ∈ tree.places) (span : Span) :
    Plants base (slots.setSpan target span) (tree.respan target span) := by
  refine ⟨?_, fun place before => ?_, ?_, ?_, ?_⟩
  · rw [length_setSpan]
    exact plants.longer
  · have other : target ≠ place := by
      rintro rfl
      have := (plants.mem_places.mp here).1
      omega
    rw [get_setSpan, plants.kept place before]
    simp only [if_neg other, Option.map_id']
  · rw [Placed.nodes_respan]
    exact List.forall_mem_map.mpr fun node member => (plants.linked node member).respan target span
  · obtain ⟨slot, found, free⟩ := plants.free
    rw [Placed.respan_eq]
    refine ⟨_, (get_setSpan ..).trans (congrArg _ found), ?_⟩
    by_cases same : target = tree.place
    · simp only [if_pos same]
      exact free
    · simp only [if_neg same]
      exact free
  · rw [Placed.places_respan, length_setSpan]
    exact plants.all

theorem setSpan (plants : Plants base slots tree) (span : Span) :
    Plants base (slots.setSpan tree.place span) { tree with span } := by
  have changed := plants.respan (Placed.mem_places_self tree) span
  rwa [Placed.respan_root _ plants.nodup] at changed

/-- The same of the one part that is in the first part of a tree. -/
theorem setSpanIn (plants : Plants base slots tree) (only : tree.parts = [inner]) (span : Span) :
    Plants base (slots.setSpan inner.place span) { tree with parts := [{ inner with span }] } := by
  have places : tree.places = tree.place :: inner.places := by
    rw [Placed.places_eq, only, List.flatMap_singleton]
  have here : inner.place ∈ tree.places := places ▸ List.mem_cons_of_mem _ (Placed.mem_places_self inner)
  obtain ⟨apart, once⟩ := List.nodup_cons.mp (places ▸ plants.nodup)
  have other : tree.place ≠ inner.place := fun same => apart (same ▸ Placed.mem_places_self inner)
  have changed := plants.respan here span
  rwa [Placed.respan_eq, if_neg other, only, List.map_singleton, Placed.respan_root _ once] at changed

end Plants

end Slots

end HtmlTemplate
