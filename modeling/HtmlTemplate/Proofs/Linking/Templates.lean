import Mathlib.Data.List.TakeWhile
import HtmlTemplate.Proofs.Linking.Rows

/-! The list of the parts of a template holds the tree that its lines and their parts are, and the links
in it are those of a tree. -/

namespace HtmlTemplate

open Placed

variable {slots : Slots} {tree node : Placed}

namespace Slots

def parent? (slots : Slots) (place : Nat) : Option Nat := slots[place]? >>= Slot.parent

def prev? (slots : Slots) (place : Nat) : Option Nat := slots[place]? >>= Slot.prev

def next? (slots : Slots) (place : Nat) : Option Nat := slots[place]? >>= Slot.next

/-- The places from one on, each of which comes next after the one before it. -/
inductive Follows (slots : Slots) : Option Nat → List Nat → Prop where
  | done : Follows slots none []
  | next {place : Nat} {slot : Slot} {rest : List Nat} (found : slots[place]? = some slot)
      (others : Follows slots slot.next rest) : Follows slots (some place) (place :: rest)

/-- The places of the parts in the part at a place, from the first one on. -/
def Kids (slots : Slots) (place : Nat) (kids : List Nat) : Prop :=
  ∃ slot, slots[place]? = some slot ∧ Follows slots slot.child kids

/-- A way from the root to a place, the last step first. -/
inductive Path (slots : Slots) : List Nat → Nat → Prop where
  | root : Path slots [] 0
  | step {path kids : List Nat} {parent place : Nat} (before : Path slots path parent)
      (all : Kids slots parent kids) (member : place ∈ kids) : Path slots (place :: path) place

/-- The links of a list of parts are those of a tree, of which the first part is the root. -/
structure Linked (slots : Slots) : Prop where
  root : ∃ slot, slots[0]? = some slot ∧ slot.parent = none
  /-- Every other part is in one part, and there once. -/
  once : ∀ place < slots.length, place ≠ 0 → ∃ parent, slots.parent? place = some parent ∧
    ∀ other kids, Kids slots other kids → kids.count place = if other = parent then 1 else 0
  path : ∀ place < slots.length, ∃! path, Path slots path place
  kids : ∀ place < slots.length, ∃ kids, Kids slots place kids ∧ kids.getLast? = slots.tail? place ∧
    ∀ kid, kid ∈ kids ↔ slots.parent? kid = some place
  inverse : ∀ first second, slots.next? first = some second ↔ slots.prev? second = some first

/-- The part at a place is a part as it is read without the list. -/
inductive Shows (slots : Slots) : Nat → Token → Prop where
  | intro {place : Nat} {slot : Slot} {kids : List Nat} {text : String} {children : List Token}
      (found : slots[place]? = some slot) (all : Follows slots slot.child kids)
      (inner : List.Forall₂ (Shows slots) kids children) :
      Shows slots place ⟨slot.kind, slot.span, text, slot.expr, children⟩

/-! What follows what. -/

theorem Follows.unique {start : Option Nat} {kids others : List Nat} (follows : Follows slots start kids)
    (again : Follows slots start others) : kids = others := by
  induction follows generalizing others with
  | done =>
    cases again
    rfl
  | next found _ step =>
    cases again with
    | next same others =>
      obtain rfl := Option.some.inj (found.symm.trans same)
      rw [step others]

theorem Links.follows (links : Links slots node) : ∀ before after, node.kids = before ++ after →
    Follows slots after.head? after
  | _, [], _ => .done
  | before, kid :: after, split => by
    obtain ⟨slot, found, -, -, next⟩ := links.kids before kid after split
    refine .next found (next ▸ links.follows (before ++ [kid]) after ?_)
    rw [split, List.append_assoc]
    rfl

theorem Links.kids_iff (links : Links slots node) {kids : List Nat} :
    Kids slots node.place kids ↔ kids = node.kids := by
  obtain ⟨slot, found, -, child, -⟩ := links.slot
  have follows := links.follows [] node.kids rfl
  rw [← child] at follows
  constructor
  · rintro ⟨again, same, others⟩
    obtain rfl := Option.some.inj (found.symm.trans same)
    exact others.unique follows
  · rintro rfl
    exact ⟨slot, found, follows⟩

theorem bind_eq {place : Nat} {slot : Slot} (found : slots[place]? = some slot) (field : Slot → Option Nat) :
    (slots[place]? >>= field) = field slot := by
  rw [found]
  rfl

theorem Links.parent? (links : Links slots node) {kid : Nat} (member : kid ∈ node.kids) :
    slots.parent? kid = some node.place := by
  obtain ⟨slot, found, parent⟩ := links.parent member
  exact (bind_eq found _).trans parent

/-! A tree in a list. -/

section

variable (plants : Plants [] slots tree)
include plants

theorem Plants.node_at {place : Nat} (within : place < slots.length) : ∃ node ∈ tree.nodes, node.place = place :=
  exists_node (plants.mem_places.mpr ⟨Nat.zero_le place, within⟩)

/-- A part with a link from or to another one is in a part. -/
theorem Plants.kid_of_link {place other : Nat} {field : Slot → Option Nat} (link : (slots[place]? >>= field) = some other)
    (none : ∀ slot, slot.parent = none ∧ slot.prev = none ∧ slot.next = none → field slot = none) :
    ∃ node ∈ tree.nodes, place ∈ node.kids := by
  obtain ⟨slot, found, linked⟩ := Option.bind_eq_some_iff.mp link
  have within := (List.getElem?_eq_some_iff.mp found).1
  refine mem_kids_of_mem (plants.mem_places.mpr ⟨Nat.zero_le place, within⟩) ?_
  rintro rfl
  obtain ⟨root, foundRoot, free⟩ := plants.free
  obtain rfl := Option.some.inj (found.symm.trans foundRoot)
  cases linked.symm.trans (none slot free)

theorem Plants.parent_iff {kid : Nat} (member : node ∈ tree.nodes) :
    kid ∈ node.kids ↔ slots.parent? kid = some node.place := by
  refine ⟨(plants.linked node member).parent?, fun parent => ?_⟩
  obtain ⟨other, inside, found⟩ := plants.kid_of_link parent fun _ free => free.1
  have same : other.place = node.place :=
    Option.some.inj (((plants.linked other inside).parent? found).symm.trans parent)
  exact node_unique plants.nodup inside member same ▸ found

theorem Plants.inverse (first second : Nat) :
    slots.next? first = some second ↔ slots.prev? second = some first := by
  constructor
  · intro next
    obtain ⟨node, member, found⟩ := plants.kid_of_link next fun _ free => free.2.2
    obtain ⟨before, after, split⟩ := List.append_of_mem found
    obtain ⟨slot, here, -, -, isNext⟩ := (plants.linked node member).kids before first after split
    obtain ⟨rest, rfl⟩ := List.head?_eq_some_iff.mp (isNext.symm.trans ((bind_eq here _).symm.trans next))
    obtain ⟨slot, here, -, prev, -⟩ := (plants.linked node member).kids (before ++ [first]) second rest
      (by rw [split, List.append_assoc]; rfl)
    exact (bind_eq here _).trans (prev.trans List.getLast?_concat)
  · intro prev
    obtain ⟨node, member, found⟩ := plants.kid_of_link prev fun _ free => free.2.1
    obtain ⟨before, after, split⟩ := List.append_of_mem found
    obtain ⟨slot, here, -, isPrev, -⟩ := (plants.linked node member).kids before second after split
    obtain ⟨front, rfl⟩ := List.getLast?_eq_some_iff.mp (isPrev.symm.trans ((bind_eq here _).symm.trans prev))
    obtain ⟨slot, here, -, -, next⟩ := (plants.linked node member).kids front first (second :: after)
      (by rw [split, List.append_assoc]; rfl)
    exact (bind_eq here _).trans next

/-- What is in a part is what the tree says. -/
theorem Plants.of_kids {place : Nat} {kids : List Nat} (all : Kids slots place kids) :
    ∃ node ∈ tree.nodes, node.place = place ∧ kids = node.kids := by
  obtain ⟨slot, found, -⟩ := id all
  obtain ⟨node, member, rfl⟩ := plants.node_at (List.getElem?_eq_some_iff.mp found).1
  exact ⟨node, member, rfl, (plants.linked node member).kids_iff.mp all⟩

theorem Plants.once {place : Nat} (within : place < slots.length) (other : place ≠ tree.place) :
    ∃ parent, slots.parent? place = some parent ∧
      ∀ other kids, Kids slots other kids → kids.count place = if other = parent then 1 else 0 := by
  obtain ⟨node, member, found⟩ := mem_kids_of_mem (plants.mem_places.mpr ⟨Nat.zero_le place, within⟩) other
  refine ⟨node.place, (plants.linked node member).parent? found, fun other kids all => ?_⟩
  obtain ⟨holder, inside, rfl, rfl⟩ := plants.of_kids all
  by_cases same : holder.place = node.place
  · rw [if_pos same, node_unique plants.nodup inside member same]
    exact List.count_eq_one_of_mem (nodup_kids (nodup_of_mem plants.nodup member)) found
  · rw [if_neg same]
    exact List.count_eq_zero.mpr fun again =>
      same ((plants.linked holder inside).unique again (plants.linked node member) found)

theorem Plants.path (member : node ∈ tree.nodes) {way : List Nat} (here : Path slots way node.place) :
    ∀ below ∈ node.nodes, ∃ path, Path slots path below.place := by
  induction node using ofParts generalizing way with
  | step node step =>
    rw [nodes_eq]
    refine List.forall_mem_cons.mpr ⟨⟨way, here⟩, fun below inside => ?_⟩
    obtain ⟨part, isPart, found⟩ := List.mem_flatMap.mp inside
    have all := (plants.linked node member).kids_iff.mpr rfl
    exact step part isPart (mem_nodes_trans member (nodes_of_part isPart (mem_nodes_self part)))
      (.step here all (List.mem_map_of_mem isPart)) below found

theorem Plants.path_unique (root : tree.place = 0) {path other : List Nat} {place : Nat} (way : Path slots path place)
    (again : Path slots other place) : path = other := by
  have notRoot {parent : Nat} {kids : List Nat} (all : Kids slots parent kids) (member : 0 ∈ kids) : False := by
    obtain ⟨node, inside, -, rfl⟩ := plants.of_kids all
    exact (plants.linked node inside).notFree (root ▸ member) plants.free
  induction way generalizing other with
  | root =>
    cases again with
    | root => rfl
    | step _ all member => exact (notRoot all member).elim
  | step _ all member step =>
    cases again with
    | root => exact (notRoot all member).elim
    | step before others same =>
      obtain ⟨node, inside, rfl, rfl⟩ := plants.of_kids all
      obtain ⟨holder, holds, rfl, rfl⟩ := plants.of_kids others
      have parents := (plants.linked node inside).unique member (plants.linked holder holds) same
      rw [step (parents ▸ before)]

theorem Plants.isLinked (root : tree.place = 0) : Linked slots := by
  refine ⟨?_, fun place within other => plants.once within (root ▸ other), fun place within => ?_,
    fun place within => ?_, plants.inverse⟩
  · obtain ⟨slot, found, free, -⟩ := plants.free
    exact ⟨slot, root ▸ found, free⟩
  · obtain ⟨node, member, rfl⟩ := plants.node_at within
    obtain ⟨path, way⟩ := plants.path (mem_nodes_self tree) (root.symm ▸ Path.root) node member
    exact ⟨path, way, fun other again => plants.path_unique root again way⟩
  · obtain ⟨node, member, rfl⟩ := plants.node_at within
    have links := plants.linked node member
    exact ⟨node.kids, links.kids_iff.mpr rfl, links.tail?.symm, fun kid => plants.parent_iff member⟩

/-- The list holds what the tree says. -/
theorem Plants.shows (member : node ∈ tree.nodes) {token : Token} (same : node.Matches token) :
    Shows slots node.place token := by
  induction node using ofParts generalizing token with
  | step node step =>
    obtain ⟨slot, found, ⟨kind, span, expr⟩, child, -⟩ := (plants.linked node member).slot
    have follows := (plants.linked node member).follows [] node.kids rfl
    rw [← child] at follows
    obtain @⟨place, _, _, _, text, parts, children, inner⟩ := same
    cases kind
    cases span
    cases expr
    refine .intro found follows (List.forall₂_map_left_iff.mpr ?_)
    have members := (List.forall₂_and_left (p := (· ∈ parts)) _ _).mpr ⟨fun _ => id, inner⟩
    refine members.imp fun part child ⟨isPart, same⟩ => ?_
    exact step part isPart (mem_nodes_trans member (nodes_of_part isPart (mem_nodes_self part))) same

end

end Slots

namespace Linking

open Slots

/-- Before the first line, only the root is open. -/
theorem stands_start (span : Span) :
    Stands .start .start [.lone .root span none] (leaf 0 .root span none) := by
  have opens : Opens (leaf 0 .root span none) 0 false :=
    ⟨_, mem_nodes_self _, rfl, ⟨nofun, nofun⟩, rfl⟩
  exact ⟨.alloc [] .root span none, rfl, .cons opens .nil, .nil, List.nodup_singleton 0⟩

/-- For every source, the list of the parts holds the parts as they are read without it, and is linked as a
tree is, or both fail with the same fault at the same place. -/
theorem source_linked (source : List Char) :
    (∃ root slots, Token.ofSource source = .ok root ∧ Slots.ofSource source = .ok slots ∧ slots.Linked ∧
        slots.Shows 0 root) ∨
      ∃ error, Token.ofSource source = .error error ∧ Slots.ofSource source = .error error := by
  have grows := rows_grow (stands_start ⟨0, byteLength source⟩) (.ofText source)
  unfold Token.ofSource Slots.ofSource
  generalize Document.readRows .start (.ofText source) = read at grows ⊢
  rw [show (rows .start (.ofText source)).run = rows .start (.ofText source) from rfl]
  generalize rows .start (.ofText source) [.lone .root ⟨0, byteLength source⟩ none] = result at grows ⊢
  cases grows with
  | error => exact .inr ⟨_, rfl, rfl⟩
  | @ok found after holes plants none spread =>
    have root : (fill holes (leaf 0 .root ⟨0, byteLength source⟩ Option.none)).place = 0 := by
      rw [fill_eq]
      rfl
    refine .inl ⟨_, after, rfl, rfl, plants.isLinked root, root ▸ plants.shows (mem_nodes_self _) ?_⟩
    have all : (Row.nest found).takeWhile (fun line => decide (([] : List Nat).length ≤ line.1)) = Row.nest found :=
      List.takeWhile_eq_self_iff.mpr fun _ _ => decide_eq_true (Nat.zero_le _)
    have inner := spread.1
    rw [all] at inner
    rw [fill_eq]
    exact .intro inner

end Linking

end HtmlTemplate
