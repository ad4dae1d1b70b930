import HtmlTemplate.Proofs.Hidden.Levels

/-! What is read from contexts that look alike. Whatever begins at a root that may be seen is the same in
both, and leads only to such roots again. -/

namespace HtmlTemplate

/-- A handle that leads to nothing but what may be seen. -/
def Handle.Seen (known : String → Prop) : Handle → Prop
  | .reference _ place => Context.Visible known place.root
  | .slot frame name => Context.Visible known (.slot frame name)
  | .vacant container _ => Context.Visible known container.root
  | _ => True

theorem Handle.Seen.place? {known : String → Prop} {handle : Handle} (seen : handle.Seen known) {place : Place}
    (leads : handle.place? = some place) : Context.Visible known place.root := by
  cases handle with
  | reference mutable source =>
    cases leads
    exact seen
  | slot frame name =>
    cases leads
    exact seen
  | _ => cases leads

theorem Handle.Seen.settled {known : String → Prop} {handle : Handle} (seen : handle.Seen known) :
    handle.settled.Seen known := by
  cases handle <;> exact seen

namespace Context

open Rules

/-- Two contexts that look alike, and each of which is still as it was where that cannot be seen. The same
has been reported in both. -/
structure Tied (known : String → Prop) (start origin first second : Context) : Prop where
  fenced : Fenced known start first
  fencedTwin : Fenced known origin second
  level : Level known first second
  reports : start.reports.SameSince origin.reports first.reports second.reports

variable {known : String → Prop} {start origin first second : Context}

/-! What is read. -/

namespace Level

theorem rootValue? (level : Level known first second) {root : Root} (visible : Visible known root) :
    first.rootValue? root = second.rootValue? root := by
  cases root with
  | slot frame name => exact level.values visible
  | temp frame index =>
    have kept (context : Context) :
        context.rootValue? (.temp frame index) = (context.layers[frame]?).bind (·.temps[index]?) := by
      rw [Context.layers, List.getElem?_map, Option.bind_map]
      rfl
    rw [kept, kept, level.layers]

theorem isRootWritable (level : Level known first second) {root : Root} (visible : Visible known root) :
    first.isRootWritable root = second.isRootWritable root := by
  cases root with
  | temp frame index => rfl
  | slot frame name =>
    unfold Context.isRootWritable
    dsimp only
    exact Binding.kinds_induction _ _ (level.kinds visible) (fun _ => rfl) (fun _ _ _ => rfl) (fun _ _ _ => rfl)
      fun _ _ _ => rfl

theorem isHosted (level : Level known first second) {frame : Nat} {name : String}
    (visible : Visible known (.slot frame name)) :
    Assignment.isHosted first frame name = Assignment.isHosted second frame name := by
  unfold Assignment.isHosted
  exact Binding.kinds_induction _ _ (level.kinds visible) (fun _ => rfl) (fun _ _ _ => rfl) (fun _ _ _ => rfl)
    fun _ _ _ => rfl

theorem alias? (level : Level known first second) {place : Place} (visible : Visible known place.root) :
    first.alias? place = second.alias? place := by
  unfold Context.alias?
  cases root : place.root with
  | temp frame index => rfl
  | slot frame name =>
    rw [root] at visible
    dsimp only
    exact Binding.kinds_induction _ _ (level.kinds visible) (fun _ => rfl) (fun _ _ _ => rfl) (fun _ _ _ => rfl)
      fun _ _ _ => rfl

theorem followAliases (level : Level known first second) (count : Nat) {place : Place}
    (visible : Visible known place.root) :
    first.followAliases count place = second.followAliases count place ∧
      Visible known (first.followAliases count place).1.root := by
  induction count generalizing place with
  | zero => exact ⟨rfl, visible⟩
  | succ count step =>
    unfold Context.followAliases
    rw [← level.alias? visible]
    cases leads : first.alias? place with
    | none => exact ⟨rfl, visible⟩
    | some found =>
      obtain ⟨target, mutable⟩ := found
      obtain ⟨same, stop⟩ := step (level.inside visible (aliasRoot?_of_alias? leads))
      simp only [same]
      exact ⟨trivial, same ▸ stop⟩

theorem find? (level : Level known first second) {name : String} (named : known name) :
    first.find? name = second.find? name := by
  apply find?_congr level.depth
  intro frame
  have kinds : ((first.binding? frame name).map Binding.kind).isSome =
      ((second.binding? frame name).map Binding.kind).isSome := by
    rw [level.kinds]
    cases frame with
    | zero => exact named
    | succ frame => trivial
  rwa [Option.isSome_map, Option.isSome_map] at kinds

end Level

namespace Tied

theorem followed (tied : Tied known start origin first second) {place : Place}
    (visible : Visible known place.root) :
    first.followAliases first.aliasBound place = second.followAliases second.aliasBound place := by
  obtain ⟨one, -⟩ := (tied.fenced.sound.ends place.root).followAliases
    (Nat.le_max_left first.aliasBound second.aliasBound)
  obtain ⟨other, -⟩ := (tied.fencedTwin.sound.ends place.root).followAliases
    (Nat.le_max_right first.aliasBound second.aliasBound)
  rw [← one, ← other, (tied.level.followAliases _ visible).1]

theorem canonical (tied : Tied known start origin first second) {place : Place}
    (visible : Visible known place.root) : first.canonical place = second.canonical place :=
  congrArg Prod.fst (tied.followed visible)

theorem canonical_visible (tied : Tied known start origin first second) {place : Place}
    (visible : Visible known place.root) : Visible known (first.canonical place).root :=
  (tied.level.followAliases _ visible).2

theorem resolve? (tied : Tied known start origin first second) {place : Place}
    (visible : Visible known place.root) : first.resolve? place = second.resolve? place := by
  unfold Context.resolve?
  dsimp only
  rw [tied.level.rootValue? (tied.canonical_visible visible), tied.canonical visible]

theorem isMutable (tied : Tied known start origin first second) {place : Place}
    (visible : Visible known place.root) : first.isMutable place = second.isMutable place := by
  have writable := tied.level.isRootWritable (tied.canonical_visible visible)
  unfold Context.isMutable
  unfold Context.canonical at writable
  dsimp only
  rw [writable, tied.followed visible]

theorem resolveMutable? (tied : Tied known start origin first second) {place : Place}
    (visible : Visible known place.root) : first.resolveMutable? place = second.resolveMutable? place := by
  rw [Context.resolveMutable?, Context.resolveMutable?, tied.isMutable visible, tied.resolve? visible]

theorem read? (tied : Tied known start origin first second) {handle : Handle} (seen : handle.Seen known) :
    first.read? handle = second.read? handle := by
  cases handle with
  | reference mutable place => exact tied.resolve? seen
  | slot frame name => exact tied.resolve? (seen : Visible known (Place.slot frame name).root)
  | _ => rfl

theorem valueOf (tied : Tied known start origin first second) {handle : Handle} (seen : handle.Seen known) :
    first.valueOf handle = second.valueOf handle := by
  rw [Context.valueOf, Context.valueOf, tied.read? seen]

theorem owner? (tied : Tied known start origin first second) {place : Place}
    (visible : Visible known place.root) : first.owner? place = second.owner? place := by
  have seen := tied.canonical_visible visible
  unfold Context.owner?
  rw [← tied.canonical visible]
  generalize first.canonical place = stop at seen
  obtain ⟨root, path⟩ := stop
  cases root with
  | temp frame index => rfl
  | slot frame name =>
    cases path with
    | cons => rfl
    | nil =>
      dsimp only
      exact Binding.kinds_induction _ _ (tied.level.kinds seen) (fun _ => rfl) (fun _ _ _ => rfl) (fun _ _ _ => rfl)
        fun _ _ _ => rfl

theorem method? (tied : Tied known start origin first second) {place : Place}
    (visible : Visible known place.root) (member : Member) :
    Member.method? first place member = Member.method? second place member := by
  cases member with
  | name word => rw [Member.method?, Member.method?, tied.owner? visible]
  | index number => rfl

theorem atPlace (tied : Tied known start origin first second) {place : Place}
    (visible : Visible known place.root) (target : Bool) (member : Member) :
    Rules.Same (Handle.Seen known) (Member.atPlace first place target member)
      (Member.atPlace second place target member) := by
  unfold Member.atPlace
  rw [← tied.resolve? visible, ← tied.isMutable visible]
  refine ⟨rfl, ?_⟩
  split
  · trivial
  · split
    · exact visible
    · trivial
    · split
      · exact visible
      · trivial

theorem ofHandle (tied : Tied known start origin first second) {base : Handle} (seen : base.Seen known)
    (target : Bool) (member : Member) :
    Rules.Same (Handle.Seen known) (Member.ofHandle first base target member)
      (Member.ofHandle second base target member) := by
  have located {place : Place} (visible : Visible known place.root) :
      Rules.Same (Handle.Seen known) (Member.ofHandle first (.reference true place) target member)
        (Member.ofHandle second (.reference true place) target member) := by
    unfold Member.ofHandle
    dsimp only [Handle.place?]
    rw [← tied.method? visible, ← tied.resolve? visible]
    cases Member.method? first place member with
    | some function => exact ⟨rfl, trivial⟩
    | none => exact tied.atPlace visible target member
  cases base with
  | reference mutable place => exact located seen
  | slot frame name => exact located (seen : Visible known (Place.slot frame name).root)
  | owned value =>
    unfold Member.ofHandle Member.ofOwned
    refine ⟨rfl, ?_⟩
    dsimp only
    split <;> trivial
  | hostClass hostClass =>
    unfold Member.ofHandle
    refine ⟨rfl, ?_⟩
    dsimp only
    split <;> trivial
  | _ => exact ⟨rfl, trivial⟩

theorem bindingFor (tied : Tied known start origin first second) (frame : Nat) (name : String)
    {value : Handle} (seen : value.Seen known) :
    Assignment.bindingFor first frame name value = Assignment.bindingFor second frame name value := by
  have read := tied.valueOf seen
  unfold Assignment.bindingFor
  split
  · rfl
  · rfl
  · rw [read]
    split
    · rename_i place leads
      have visible := seen.place? leads
      rw [tied.canonical visible, tied.resolve? visible, tied.isMutable visible]
    · rfl

end Tied

/-! Evaluation in contexts that look alike through the names of an expression. It gives the same in both,
and leaves them alike; what cannot be seen stays as it was. -/

namespace Tied

/-! What is written. -/

theorem store (tied : Tied known start origin first second) {frame : Nat} {name : String} {binding : Binding}
    (visible : Visible known (.slot frame name)) (sound : (first.store frame name binding).Sound)
    (soundTwin : (second.store frame name binding).Sound)
    (own : ∀ index owner, binding ≠ .value (.hosted index) owner)
    (inside : ∀ place mutable, binding = .alias place mutable → Visible known place.root) :
    Tied known start origin (first.store frame name binding) (second.store frame name binding) where
  fenced := tied.fenced.store sound visible own
  fencedTwin := tied.fencedTwin.store soundTwin visible own
  level := tied.level.store frame name own inside
  reports := tied.reports

/-- A name that may be seen gets a value of its own, or none. -/
theorem storeOwn (tied : Tied known start origin first second) {frame : Nat} {name : String} {binding : Binding}
    (visible : Visible known (.slot frame name)) (own : ∀ index owner, binding ≠ .value (.hosted index) owner)
    (last : ∀ place mutable, binding ≠ .alias place mutable) :
    Tied known start origin (first.store frame name binding) (second.store frame name binding) :=
  tied.store visible (tied.fenced.sound.store frame name last).1 (tied.fencedTwin.sound.store frame name last).1
    own fun place mutable same => absurd same (last place mutable)

theorem setRoot (tied : Tied known start origin first second) {root : Root} (visible : Visible known root)
    {old : Value} (held : first.rootValue? root = some old) (writable : first.isRootWritable root = true)
    (value : Value) : Tied known start origin (first.setRoot root value) (second.setRoot root value) where
  fenced := tied.fenced.setRoot visible value
  fencedTwin := tied.fencedTwin.setRoot visible value
  level := tied.level.setRoot tied.fenced.apart tied.fencedTwin.apart held
    (tied.level.rootValue? visible ▸ held) writable (tied.level.isRootWritable visible ▸ writable) value
  reports := by 
    rw [reports_setRoot, reports_setRoot]
    exact tied.reports

theorem write? (tied : Tied known start origin first second) {place : Place}
    (visible : Visible known place.root) (mutable : (first.resolveMutable? place).isSome = true) (value : Value) :
    Tied known start origin ((first.write? place value).getD first) ((second.write? place value).getD second) := by
  have seen := tied.canonical_visible visible
  have writable : first.isRootWritable (first.canonical place).root = true := by
    unfold Context.resolveMutable? at mutable
    split at mutable
    · rename_i allowed
      exact (Bool.and_eq_true_iff.mp allowed).2
    · cases mutable
  unfold Context.write?
  dsimp only
  rw [← tied.canonical visible, ← tied.level.rootValue? seen]
  cases held : first.rootValue? (first.canonical place).root with
  | none => exact tied
  | some old =>
    dsimp only [Bind.bind, Option.bind]
    cases Value.replace? (first.canonical place).path old value with
    | none => exact tied
    | some changed => exact tied.setRoot seen held writable changed

theorem assigned (tied : Tied known start origin first second) {frame : Nat} {name : String} {value : Handle}
    (visible : Visible known (.slot frame name)) (seen : value.Seen known) :
    Tied known start origin (first.store frame name (Assignment.bindingFor first frame name value))
      (second.store frame name (Assignment.bindingFor second frame name value)) := by
  have sound := (tied.fenced.sound.assigned frame name value).1
  have soundTwin := (tied.fencedTwin.sound.assigned frame name value).1
  rw [← tied.bindingFor frame name seen] at soundTwin ⊢
  apply tied.store visible sound soundTwin
  · intro index owner same
    rcases Sound.bindingFor_cases first frame name value with
      ⟨_, _, _, -, -, binding, -⟩ | binding | ⟨-, ⟨_, binding⟩ | ⟨_, binding⟩⟩
    all_goals
      rw [binding] at same
      cases same
  · intro place mutable same
    rcases Sound.bindingFor_cases first frame name value with
      ⟨source, _, _, leads, -, binding, -⟩ | binding | ⟨-, ⟨_, binding⟩ | ⟨_, binding⟩⟩
    · rw [binding] at same
      cases same
      exact tied.canonical_visible (seen.place? leads)
    all_goals
      rw [binding] at same
      cases same

end Tied

/-! Writing through handles. -/

theorem writeTo_tied {place : Place} (visible : Visible known place.root) (value : Value) :
    Pairs (Tied known start origin) (fun _ _ => True) (Tied known start origin)
      (Assignment.writeTo place value) (Assignment.writeTo place value) := by
  intro first second tied
  rw [Assignment.writeTo_eq, Assignment.writeTo_eq, ← tied.resolveMutable? visible]
  cases found : first.resolveMutable? place with
  | none => exact .error tied
  | some old => exact .ok trivial (tied.write? visible (by rw [found]; rfl) value)

theorem insertAt_tied {container : Place} (visible : Visible known container.root) (key : String)
    (value : Value) :
    Pairs (Tied known start origin) (fun _ _ => True) (Tied known start origin)
      (Assignment.insertAt container key value) (Assignment.insertAt container key value) := by
  intro first second tied
  rw [Assignment.insertAt_eq, Assignment.insertAt_eq, ← tied.resolveMutable? visible]
  cases found : first.resolveMutable? container with
  | none => exact .error tied
  | some old =>
    dsimp only
    cases old.insert? key value with
    | none => exact .error tied
    | some changed => exact .ok trivial (tied.write? visible (by rw [found]; rfl) changed)

theorem assign_tied {target value : Handle} (seenTarget : target.Seen known) (seen : value.Seen known) :
    Pairs (Tied known start origin) (Same (Handle.Seen known)) (Tied known start origin)
      (Assignment.assign target value) (Assignment.assign target value) := by
  apply Pairs.bind_get
  intro first second tied
  rw [tied.valueOf seen]
  cases target with
  | slot frame name =>
    have visible : Visible known (Place.slot frame name).root := seenTarget
    dsimp only
    rw [← tied.level.isHosted seenTarget]
    cases Assignment.isHosted first frame name with
    | true =>
      exact Pairs.bind (writeTo_tied visible _) (fun _ _ _ => .pure ⟨rfl, seenTarget⟩) first second tied
    | false => exact .ok ⟨rfl, seenTarget⟩ (tied.assigned seenTarget seen)
  | reference mutable place =>
    cases mutable with
    | true =>
      exact Pairs.bind (writeTo_tied seenTarget _) (fun _ _ _ => .pure ⟨rfl, seenTarget⟩) first second tied
    | false => exact .error tied
  | vacant container key =>
    exact Pairs.bind (insertAt_tied seenTarget key _) (fun _ _ _ => .pure ⟨rfl, seenTarget⟩) first second tied
  | _ => exact .error tied

theorem prepare_tied {target : Handle} (seen : target.Seen known) :
    Pairs (Tied known start origin) (fun place other => place = other ∧ Visible known place.root)
      (Tied known start origin) (Assignment.prepare target) (Assignment.prepare target) := by
  intro first second tied
  cases target with
  | slot frame name =>
    have same : Assignment.filling frame name (first.binding? frame name) =
        Assignment.filling frame name (second.binding? frame name) := by
      exact Binding.kinds_induction _ _ (tied.level.kinds seen) (fun _ => rfl) (fun _ _ _ => rfl) (fun _ _ _ => rfl)
        fun _ _ _ => rfl
    rw [Assignment.prepare_slot, Assignment.prepare_slot, ← same]
    refine .ok ⟨rfl, seen⟩ ?_
    cases first.binding? frame name with
    | none => exact tied
    | some binding =>
      cases binding with
      | unset => exact tied.storeOwn seen nofun nofun
      | _ => exact tied
  | reference mutable place =>
    cases mutable with
    | true => exact .ok ⟨rfl, seen⟩ tied
    | false => exact .error tied
  | vacant container key =>
    exact Pairs.bind (insertAt_tied seen key .null) (fun _ _ _ => .pure ⟨rfl, seen⟩) first second tied
  | _ => exact .error tied

theorem update_tied {target : Handle} (seen : target.Seen known) (change : Value → Except EvalFault Value) :
    Pairs (Tied known start origin) (fun _ _ => True) (Tied known start origin)
      (Assignment.update target change) (Assignment.update target change) := by
  apply Pairs.bind (prepare_tied seen)
  rintro place _ ⟨rfl, visible⟩
  apply Pairs.bind_get
  intro first second tied
  rw [← tied.resolveMutable? visible]
  cases first.resolveMutable? place with
  | none => exact .error tied
  | some old =>
    cases changed : change old with
    | error fault =>
      simp only [changed]
      exact .error tied
    | ok value =>
      simp only [changed]
      exact writeTo_tied visible value first second tied

/-! Names. -/

theorem lookupName_tied (mode : EvalMode) {name : String} (named : known name) :
    Pairs (Tied known start origin) (Same (Handle.Seen known)) (Tied known start origin)
      (Eval.lookupName mode name) (Eval.lookupName mode name) := by
  intro first second tied
  rw [Eval.lookupName_eq, Eval.lookupName_eq, ← tied.level.find? named]
  cases first.find? name with
  | none =>
    cases mode.soft with
    | true => exact .ok ⟨rfl, trivial⟩ tied
    | false => exact .error tied
  | some frame =>
    have visible : Visible known (.slot frame name) := visible_slot named frame
    have same : Eval.meaning frame name (first.binding? frame name) =
        Eval.meaning frame name (second.binding? frame name) := by
      exact Binding.kinds_induction _ _ (tied.level.kinds visible) (fun _ => rfl) (fun _ _ _ => rfl)
        (fun _ _ _ => rfl) fun _ _ _ => rfl
    rw [Option.elim_some, Option.elim_some, ← same]
    exact .ok ⟨rfl, Eval.meaning_fits (fun _ => trivial) (fun _ => trivial) visible _⟩ tied

theorem declare_tied {name : String} (named : known name) :
    Pairs (Tied known start origin) (Same (Handle.Seen known)) (Tied known start origin)
      (Eval.declare name) (Eval.declare name) := by
  apply Pairs.bind_get
  intro first second tied
  have visible : Visible known (.slot first.current name) := visible_slot named _
  have kinds := congrArg Option.isSome (tied.level.kinds visible)
  rw [Option.isSome_map, Option.isSome_map] at kinds
  rw [← tied.level.current, ← kinds]
  cases (first.binding? first.current name).isSome with
  | true => exact .error tied
  | false =>
    have bound : Tied known start origin (first.bind name .unset) (second.bind name .unset) := by
      unfold Context.bind
      rw [← tied.level.current]
      exact tied.storeOwn visible nofun nofun
    exact .ok ⟨rfl, visible⟩ bound

theorem tied_likeness : Likeness (Tied known start origin) (Handle.Seen known) known where
  owned _ := trivial
  valueOf tied seen := tied.valueOf seen
  member tied seen target member := tied.ofHandle seen target member
  settled seen := seen.settled
  updated seen change := update_tied seen change
  assigned seenTarget seen := assign_tied seenTarget seen
  looked mode {_} named := lookupName_tied mode named
  declared {_} named := declare_tied named

end Context

end HtmlTemplate
