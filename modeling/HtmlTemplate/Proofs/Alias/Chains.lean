import Mathlib.Data.List.Perm.Subperm
import HtmlTemplate.Proofs.Context.Frames

/-! Chains of aliases. An alias leads from one root to another; where no chain comes back to
itself, a chain has no more links than there are names, so the bound on following aliases is
never met. -/

namespace HtmlTemplate

namespace Context

/-- The root that the alias at a root leads to. -/
def aliasRoot? (context : Context) : Root → Option Root
  | .temp _ _ => none
  | .slot frame name =>
    match context.binding? frame name with
    | some (.alias place _) => some place.root
    | _ => none

theorem aliasRoot?_of_binding {context : Context} {frame : Nat} {name : String} {place : Place}
    {mutable : Bool} (bound : context.binding? frame name = some (.alias place mutable)) :
    context.aliasRoot? (.slot frame name) = some place.root := by
  unfold aliasRoot?
  dsimp only
  rw [bound]

theorem aliasRoot?_of_own {context : Context} {frame : Nat} {name : String}
    (own : ∀ place mutable, context.binding? frame name ≠ some (.alias place mutable)) :
    context.aliasRoot? (.slot frame name) = none := by
  unfold aliasRoot?
  dsimp only
  split
  · rename_i place mutable found
    exact absurd found (own place mutable)
  · rfl

/-- Following aliases from a root comes to one that is no alias. -/
inductive Ends (context : Context) : Root → Prop where
  | here {root : Root} (last : context.aliasRoot? root = none) : Ends context root
  | next {root target : Root} (leads : context.aliasRoot? root = some target)
      (ends : Ends context target) : Ends context root

theorem aliasRoot?_eq_none_iff (context : Context) (place : Place) :
    context.aliasRoot? place.root = none ↔ context.alias? place = none := by
  unfold aliasRoot? alias?
  cases place.root with
  | temp frame index => exact ⟨fun _ => rfl, fun _ => rfl⟩
  | slot frame name =>
    dsimp only
    split <;> simp_all

theorem aliasRoot?_of_alias? {context : Context} {place target : Place} {mutable : Bool}
    (leads : context.alias? place = some (target, mutable)) :
    context.aliasRoot? place.root = some target.root := by
  unfold aliasRoot?
  unfold alias? at leads
  cases root : place.root with
  | temp frame index =>
    rw [root] at leads
    cases leads
  | slot frame name =>
    rw [root] at leads
    cases found : context.binding? frame name with
    | none =>
      simp only [found] at leads
      cases leads
    | some binding =>
      simp only [found] at leads
      cases binding with
      | «alias» aliased writable =>
        cases leads
        simp only [found]
        rfl
      | _ => cases leads

/-- A chain of a number of links. -/
def Links (context : Context) : Nat → Root → Prop
  | 0, root => context.aliasRoot? root = none
  | count + 1, root => ∃ target, context.aliasRoot? root = some target ∧ context.Links count target

theorem Ends.links {context : Context} {root : Root} (ends : context.Ends root) :
    ∃ count, context.Links count root := by
  induction ends with
  | here last => exact ⟨0, last⟩
  | next leads ends step =>
    obtain ⟨count, links⟩ := step
    exact ⟨count + 1, _, leads, links⟩

/-- The number of links is determined by where a chain begins. -/
theorem Links.unique {context : Context} {first second : Nat} {root : Root}
    (one : context.Links first root) (other : context.Links second root) : first = second := by
  induction first generalizing second root with
  | zero =>
    cases second with
    | zero => rfl
    | succ second =>
      obtain ⟨target, leads, -⟩ := other
      rw [one] at leads
      cases leads
  | succ first step =>
    obtain ⟨target, leads, links⟩ := one
    cases second with
    | zero =>
      rw [other] at leads
      cases leads
    | succ second =>
      obtain ⟨target', leads', links'⟩ := other
      rw [leads] at leads'
      cases leads'
      rw [step links links']

/-- The names of all scopes. -/
def slots (context : Context) : List Root :=
  context.frames.zipIdx.flatMap fun (frame, index) =>
    frame.bindings.map fun (name, _) => .slot index name

theorem length_slots (context : Context) : context.slots.length + 1 = context.aliasBound := by
  have all : ∀ (frames : List Frame) (start bound : Nat),
      frames.foldl (fun bound frame => bound + frame.bindings.length) bound =
        bound + ((frames.zipIdx start).flatMap fun (frame, index) =>
          frame.bindings.map fun (name, _) => Root.slot index name).length := by
    intro frames
    induction frames with
    | nil => exact fun _ _ => rfl
    | cons frame rest step =>
      intro start bound
      simp only [List.foldl_cons, List.zipIdx_cons, List.flatMap_cons, List.length_append,
        List.length_map, step (start + 1)]
      omega
  rw [aliasBound, all context.frames 0 1, slots, Nat.add_comm]

theorem mem_slots_of_aliasRoot? {context : Context} {root target : Root}
    (leads : context.aliasRoot? root = some target) : root ∈ context.slots := by
  cases root with
  | temp frame index => cases leads
  | slot frame name =>
    unfold aliasRoot? at leads
    dsimp only at leads
    split at leads
    · rename_i place mutable found
      rw [binding?_eq] at found
      obtain ⟨scope, isOpen, known⟩ := Option.bind_eq_some_iff.mp found
      apply List.mem_flatMap.mpr
      refine ⟨(scope, frame), List.mk_mem_zipIdx_iff_getElem?.mpr isOpen, ?_⟩
      exact List.mem_map.mpr ⟨(name, _), Entries.mem_of_lookup known, rfl⟩
    · cases leads

/-- The roots of a chain are different names. -/
theorem Links.visited {context : Context} {count : Nat} {root : Root}
    (links : context.Links count root) :
    ∃ roots : List Root, roots.length = count ∧ roots.Nodup ∧ roots ⊆ context.slots ∧
      ∀ other ∈ roots, ∃ fewer, 0 < fewer ∧ fewer ≤ count ∧ context.Links fewer other := by
  induction count generalizing root with
  | zero => exact ⟨[], rfl, List.nodup_nil, List.nil_subset _, by simp⟩
  | succ count step =>
    obtain ⟨target, leads, rest⟩ := links
    obtain ⟨roots, length, distinct, named, shorter⟩ := step rest
    refine ⟨root :: roots, by rw [List.length_cons, length], ?_, ?_, ?_⟩
    · -- A root that came again would begin chains of two lengths.
      apply List.nodup_cons.mpr
      refine ⟨fun again => ?_, distinct⟩
      obtain ⟨fewer, -, least, links⟩ := shorter root again
      have whole : context.Links (count + 1) root := ⟨target, leads, rest⟩
      have := whole.unique links
      omega
    · exact List.cons_subset.mpr ⟨mem_slots_of_aliasRoot? leads, named⟩
    · intro other member
      cases member with
      | head => exact ⟨count + 1, by omega, Nat.le_refl _, target, leads, rest⟩
      | tail _ member =>
        obtain ⟨fewer, positive, least, links⟩ := shorter other member
        exact ⟨fewer, positive, by omega, links⟩

theorem Links.lt_aliasBound {context : Context} {count : Nat} {root : Root}
    (links : context.Links count root) : count < context.aliasBound := by
  obtain ⟨roots, length, distinct, named, -⟩ := links.visited
  have := (distinct.subperm named).length_le
  have := context.length_slots
  omega

/-! Following aliases. -/

theorem followAliases_of_alias?_eq_none {context : Context} {place : Place}
    (last : context.alias? place = none) (count : Nat) :
    context.followAliases count place = (place, true) := by
  cases count with
  | zero => rfl
  | succ count => rw [followAliases, last]

/-- With as many steps as a chain has links, or more, the same end is reached. -/
theorem followAliases_of_links {context : Context} {links : Nat} {place : Place}
    (chain : context.Links links place.root) {first second : Nat} (enough : links ≤ first)
    (alsoEnough : links ≤ second) :
    context.followAliases first place = context.followAliases second place ∧
      context.alias? (context.followAliases first place).1 = none := by
  induction links generalizing place first second with
  | zero =>
    have last := (context.aliasRoot?_eq_none_iff place).mp chain
    rw [followAliases_of_alias?_eq_none last, followAliases_of_alias?_eq_none last]
    exact ⟨rfl, last⟩
  | succ links step =>
    obtain ⟨target, leads, rest⟩ := chain
    cases follows : context.alias? place with
    | none =>
      rw [(context.aliasRoot?_eq_none_iff place).mpr follows] at leads
      cases leads
    | some found =>
      obtain ⟨next, mutable⟩ := found
      rw [aliasRoot?_of_alias? follows] at leads
      cases leads
      obtain ⟨first, rfl⟩ : ∃ fewer, first = fewer + 1 := ⟨first - 1, by omega⟩
      obtain ⟨second, rfl⟩ : ∃ fewer, second = fewer + 1 := ⟨second - 1, by omega⟩
      obtain ⟨same, last⟩ := step rest (Nat.le_of_succ_le_succ enough)
        (Nat.le_of_succ_le_succ alsoEnough)
      simp only [followAliases, follows, same]
      exact ⟨trivial, same ▸ last⟩

/-- Where a chain ends, the bound on following it is never met. -/
theorem Ends.followAliases {context : Context} {place : Place} (ends : context.Ends place.root)
    {count : Nat} (enough : context.aliasBound ≤ count) :
    context.followAliases count place = context.followAliases context.aliasBound place ∧
      context.alias? (context.followAliases count place).1 = none := by
  obtain ⟨links, chain⟩ := ends.links
  have least := chain.lt_aliasBound
  exact followAliases_of_links chain (by omega) (by omega)

theorem Ends.canonical {context : Context} {place : Place} (ends : context.Ends place.root) :
    context.alias? (context.canonical place) = none :=
  (ends.followAliases (Nat.le_refl _)).2

theorem canonical_of_alias?_eq_none {context : Context} {place : Place}
    (last : context.alias? place = none) : context.canonical place = place := by
  rw [canonical, followAliases_of_alias?_eq_none last]

end Context

end HtmlTemplate
