import HtmlTemplate.Proofs.Alias.Reachable

/-! What is read at a place after something has been put there. Putting a value in the place of
another one leaves all aliases as they are, so a place still leads to the same root; and an
assignment to a name makes an alias only of the container that the value is. -/

namespace HtmlTemplate

namespace Value

theorem follow?_append (first second : List Segment) (value : Value) :
    follow? (first ++ second) value = (follow? first value).bind (follow? second) := by
  induction first generalizing value with
  | nil => rfl
  | cons segment rest step =>
    change (step? segment value).bind (follow? (rest ++ second)) =
      ((step? segment value).bind (follow? rest)).bind (follow? second)
    rw [Option.bind_assoc]
    exact congrArg _ (funext step)

/-- An element that is there can be replaced, and the new one is read back. -/
theorem setStep?_reads {segment : Segment} {value old : Value}
    (found : step? segment value = some old) (element : Value) :
    ∃ changed, setStep? segment value element = some changed ∧
      step? segment changed = some element := by
  cases segment with
  | key name =>
    cases value with
    | dict entries =>
      have known : Entries.contains name entries = true := by
        rw [Entries.contains, show Entries.lookup name entries = some old from found]
        rfl
      refine ⟨.dict (Entries.insert name element entries), ?_, Entries.lookup_insert_self ..⟩
      rw [setStep?, if_pos known]
    | _ => cases found
  | index position =>
    cases value with
    | array items =>
      have within : position < items.length := (List.getElem?_eq_some_iff.mp found).1
      refine ⟨.array (items.set position element), ?_, List.getElem?_set_self within⟩
      rw [setStep?, if_pos within]
    | _ => cases found

/-- The same at the end of a path. -/
theorem replace?_reads {path : List Segment} {value old : Value}
    (found : follow? path value = some old) (replacement : Value) :
    ∃ changed, replace? path value replacement = some changed ∧
      follow? path changed = some replacement := by
  induction path generalizing value with
  | nil => exact ⟨replacement, rfl, rfl⟩
  | cons segment rest step =>
    obtain ⟨element, first, others⟩ := Option.bind_eq_some_iff.mp found
    obtain ⟨inner, replaced, reads⟩ := step others
    obtain ⟨changed, done, back⟩ := setStep?_reads first inner
    refine ⟨changed, ?_, ?_⟩
    · simp only [replace?, first, replaced, Option.bind_eq_bind, Option.bind_some]
      exact done
    · simp only [follow?, back, Option.bind_eq_bind, Option.bind_some]
      exact reads

theorem follow?_insert? {container changed element : Value} {key : String}
    (done : container.insert? key element = some changed) :
    follow? [.key key] changed = some element := by
  cases container with
  | dict entries =>
    cases done
    simp only [follow?, step?, get?, Entries.lookup_insert_self, Option.bind_eq_bind,
      Option.bind_some]
  | _ => cases done

end Value

namespace Assignment

theorem writeTo_eq (place : Place) (value : Value) (context : Context) :
    writeTo place value context =
      match context.resolveMutable? place with
      | none => (.error .readOnly, context)
      | some _ => (.ok (), (context.write? place value).getD context) := by
  change (match context.resolveMutable? place with
    | none => throw .readOnly
    | some _ => set ((context.write? place value).getD context) : EvalM Unit) context = _
  cases context.resolveMutable? place <;> rfl

theorem insertAt_eq (container : Place) (key : String) (value : Value) (context : Context) :
    insertAt container key value context =
      match context.resolveMutable? container with
      | none => (.error .readOnly, context)
      | some old =>
        match old.insert? key value with
        | none => (.error .notAssignable, context)
        | some changed => (.ok (), (context.write? container changed).getD context) := by
  change (match context.resolveMutable? container with
    | none => throw .readOnly
    | some old =>
      match old.insert? key value with
      | none => throw .notAssignable
      | some changed => set ((context.write? container changed).getD context) : EvalM Unit) context = _
  cases context.resolveMutable? container with
  | none => rfl
  | some old => cases inserted : old.insert? key value <;> simp only [inserted] <;> rfl

end Assignment

namespace Context

/-! The places further in lead to where their container leads. -/

theorem alias?_extend (context : Context) (place : Place) (path : List Value.Segment) :
    context.alias? (place.extend path) =
      (context.alias? place).map fun (target, mutable) => (target.extend path, mutable) := by
  have same : (place.extend path).root = place.root := rfl
  unfold alias?
  rw [same]
  cases place.root with
  | temp frame index => rfl
  | slot frame name =>
    dsimp only
    split
    · simp only [Place.extend, List.append_assoc, Option.map_some]
    · rfl

theorem followAliases_extend (context : Context) (count : Nat) (place : Place)
    (path : List Value.Segment) :
    context.followAliases count (place.extend path) =
      ((context.followAliases count place).1.extend path, (context.followAliases count place).2) := by
  induction count generalizing place with
  | zero => rfl
  | succ count step =>
    unfold followAliases
    rw [alias?_extend]
    cases context.alias? place with
    | none => rfl
    | some found => simp only [Option.map_some, step]

theorem canonical_extend (context : Context) (place : Place) (path : List Value.Segment) :
    context.canonical (place.extend path) = (context.canonical place).extend path := by
  rw [canonical, followAliases_extend, canonical]

theorem resolve?_extend (context : Context) (place : Place) (path : List Value.Segment) :
    context.resolve? (place.extend path) = (context.resolve? place).bind (Value.follow? path) := by
  unfold resolve?
  rw [canonical_extend]
  change (context.rootValue? (context.canonical place).root).bind
      (Value.follow? ((context.canonical place).path ++ path)) =
    ((context.rootValue? (context.canonical place).root).bind
      (Value.follow? (context.canonical place).path)).bind (Value.follow? path)
  rw [Option.bind_assoc]
  exact congrArg _ (funext (Value.follow?_append _ path))

/-! Aliases after a change. -/

theorem alias?_congr {before after : Context} {place : Place}
    (same : ∀ frame name, place.root = .slot frame name →
      after.binding? frame name = before.binding? frame name) :
    after.alias? place = before.alias? place := by
  unfold alias?
  cases root : place.root with
  | temp frame index => rfl
  | slot frame name =>
    dsimp only
    rw [same frame name root]

/-- A name that is no alias does not become one. -/
theorem alias?_store {context : Context} {frame : Nat} {name : String} {binding : Binding}
    (before : context.aliasRoot? (.slot frame name) = none)
    (own : ∀ place mutable, binding ≠ .alias place mutable) (place : Place) :
    (context.store frame name binding).alias? place = context.alias? place := by
  by_cases here : place.root = .slot frame name
  · have last : context.alias? place = none :=
      (context.aliasRoot?_eq_none_iff place).mp (here ▸ before)
    rw [last, ← aliasRoot?_eq_none_iff, here]
    exact aliasRoot?_store_own context frame name own
  · apply alias?_congr
    intro other word root
    apply binding?_store_of_ne
    rintro ⟨rfl, rfl⟩
    exact here root

theorem alias?_setRoot (context : Context) (root : Root) (value : Value) (place : Place) :
    (context.setRoot root value).alias? place = context.alias? place := by
  cases root with
  | temp frame index =>
    apply alias?_congr
    intro other name _
    apply binding?_modifyFrame
    intro scope
    rfl
  | slot frame name =>
    unfold setRoot
    dsimp only
    split
    · rename_i owner found
      exact alias?_store (aliasRoot?_of_own (by rw [found]; nofun)) (by nofun) place
    · rfl
    · rfl

/-- Aliases lead alike from some roots in two contexts, and to nothing but such roots. The places that
begin there lead to the same ends, whatever else has been changed. -/
structure LeadAlike (clear : Root → Prop) (before after : Context) : Prop where
  leads : ∀ {root target}, clear root → before.aliasRoot? root = some target → clear target
  aliases : ∀ {place : Place}, clear place.root → after.alias? place = before.alias? place

namespace LeadAlike

variable {clear : Root → Prop} {before after : Context}

theorem followAliases (alike : LeadAlike clear before after) (count : Nat) {place : Place}
    (begins : clear place.root) :
    after.followAliases count place = before.followAliases count place ∧
      clear (before.followAliases count place).1.root := by
  induction count generalizing place with
  | zero => exact ⟨rfl, begins⟩
  | succ count step =>
    unfold Context.followAliases
    rw [alike.aliases begins]
    cases found : before.alias? place with
    | none => exact ⟨rfl, begins⟩
    | some next =>
      obtain ⟨same, ends⟩ := step (alike.leads begins (aliasRoot?_of_alias? found))
      simp only [same]
      exact ⟨trivial, ends⟩

theorem canonical (alike : LeadAlike clear before after) (sound : before.Sound) (soundAfter : after.Sound)
    {place : Place} (begins : clear place.root) :
    after.canonical place = before.canonical place ∧ clear (before.canonical place).root := by
  -- The two contexts need not have the same bound, but it is never met.
  obtain ⟨earlier, -⟩ := (sound.ends place.root).followAliases (Nat.le_max_left _ after.aliasBound)
  obtain ⟨later, -⟩ := (soundAfter.ends place.root).followAliases (Nat.le_max_right before.aliasBound _)
  rw [Context.canonical, Context.canonical, ← earlier, ← later]
  obtain ⟨same, ends⟩ := alike.followAliases (max before.aliasBound after.aliasBound) begins
  exact ⟨congrArg Prod.fst same, ends⟩

theorem everywhere (same : ∀ place, after.alias? place = before.alias? place) :
    LeadAlike (fun _ => True) before after :=
  ⟨fun _ _ => trivial, fun _ => same _⟩

end LeadAlike

theorem followAliases_congr {before after : Context}
    (same : ∀ place, after.alias? place = before.alias? place) (count : Nat) (place : Place) :
    after.followAliases count place = before.followAliases count place :=
  ((LeadAlike.everywhere same).followAliases count trivial).1

/-! Values at roots. -/

theorem rootValue?_slot {context : Context} {frame : Nat} {name : String} {source : Source}
    {owner : Option HostClass} (bound : context.binding? frame name = some (.value source owner)) :
    context.rootValue? (.slot frame name) = context.sourceValue? source := by
  unfold rootValue?
  dsimp only
  rw [bound]

theorem rootValue?_of_other {context : Context} {frame : Nat} {name : String}
    (other : ∀ source owner, context.binding? frame name ≠ some (.value source owner)) :
    context.rootValue? (.slot frame name) = none := by
  unfold rootValue?
  dsimp only
  split
  · rename_i source owner found
    exact absurd found (other source owner)
  · rfl

theorem resolve?_slot {context : Context} {frame : Nat} {name : String}
    (last : context.aliasRoot? (.slot frame name) = none) :
    context.resolve? (.slot frame name) = context.rootValue? (.slot frame name) := by
  have last : context.alias? (.slot frame name) = none :=
    (context.aliasRoot?_eq_none_iff (.slot frame name)).mp last
  unfold resolve?
  rw [canonical_of_alias?_eq_none last]
  exact Option.bind_fun_some _

theorem read?_of_place? {handle : Handle} {place : Place} (leads : handle.place? = some place)
    (context : Context) : context.read? handle = context.resolve? place := by
  cases handle with
  | reference mutable source =>
    cases leads
    rfl
  | slot frame name =>
    cases leads
    rfl
  | _ => cases leads

theorem valueOf_slot_of_other {context : Context} {frame : Nat} {name : String}
    (own : ∀ place mutable, context.binding? frame name ≠ some (.alias place mutable))
    (other : ∀ source owner, context.binding? frame name ≠ some (.value source owner)) :
    context.valueOf (.slot frame name) = .null := by
  rw [valueOf, read?_of_place? rfl, resolve?_slot (aliasRoot?_of_own own), rootValue?_of_other other]
  rfl

theorem rootValue?_setRoot {context : Context} {root : Root} {old : Value}
    (held : context.rootValue? root = some old) (writable : context.isRootWritable root = true)
    (value : Value) : (context.setRoot root value).rootValue? root = some value := by
  cases root with
  | temp frame index =>
    obtain ⟨scope, found, stored⟩ := Option.bind_eq_some_iff.mp held
    have within : index < scope.temps.length := (List.getElem?_eq_some_iff.mp stored).1
    unfold setRoot rootValue?
    dsimp only
    rw [getElem?_modifyFrame, found]
    simp [within]
  | slot frame name =>
    unfold isRootWritable at writable
    unfold setRoot
    dsimp only at writable ⊢
    split at writable
    · cases writable
    · rename_i source owner owned bound
      rw [rootValue?_slot bound] at held
      cases source with
      | owned kept =>
        have isOpen : frame < context.depth := lt_depth_of_binding? (by rw [bound]; rfl)
        simp only [bound]
        exact rootValue?_slot (binding?_store_self isOpen name _)
      | lent kept => exact absurd rfl (owned kept)
      | hosted index =>
        have within : index < context.hosted.length := (List.getElem?_eq_some_iff.mp held).1
        simp only [bound]
        have same : Context.binding? { context with hosted := context.hosted.set index value }
          frame name = some (.value (.hosted index) owner) := bound
        exact (rootValue?_slot same).trans (List.getElem?_set_self within)
    · cases writable

theorem rootValue?_store_of_ne {context : Context} {frame : Nat} {name : String} {root : Root}
    (different : root ≠ .slot frame name) (binding : Binding) :
    (context.store frame name binding).rootValue? root = context.rootValue? root := by
  cases root with
  | slot other word =>
    have elsewhere : ¬ (other = frame ∧ word = name) := by
      rintro ⟨rfl, rfl⟩
      exact different rfl
    unfold rootValue?
    dsimp only
    rw [binding?_store_of_ne elsewhere]
    rfl
  | temp other index =>
    unfold rootValue? store
    dsimp only
    rw [getElem?_modifyFrame]
    cases context.frames[other]? with
    | none => rfl
    | some scope =>
      simp only [Option.map_some, Option.bind_eq_bind, Option.bind_some]
      split <;> rfl

/-! Reading on after a change. -/

/-- Two contexts agree on some roots, which lead to nothing but such roots. -/
structure AgreeOn (clear : Root → Prop) (before after : Context) : Prop extends LeadAlike clear before after where
  values : ∀ {root}, clear root → after.rootValue? root = before.rootValue? root

theorem AgreeOn.resolve? {clear : Root → Prop} {before after : Context} (agree : AgreeOn clear before after)
    (sound : before.Sound) (soundAfter : after.Sound) {place : Place} (begins : clear place.root) :
    after.resolve? place = before.resolve? place := by
  obtain ⟨same, ends⟩ := agree.canonical sound soundAfter begins
  unfold Context.resolve?
  rw [same]
  dsimp only
  rw [agree.values ends]

/-! Reading what has been put. -/

namespace Sound

variable {before after : Context}

theorem canonical_congr (sound : before.Sound) (soundAfter : after.Sound)
    (same : ∀ place, after.alias? place = before.alias? place) (place : Place) :
    after.canonical place = before.canonical place :=
  ((LeadAlike.everywhere same).canonical sound soundAfter trivial).1

/-- An alias leads where its place leads. -/
theorem canonical_alias (sound : before.Sound) {place target : Place} {mutable : Bool}
    (leads : before.alias? place = some (target, mutable)) :
    before.canonical place = before.canonical target := by
  obtain ⟨further, -⟩ := (sound.ends place.root).followAliases (Nat.le_succ before.aliasBound)
  rw [canonical, ← further, followAliases, leads, canonical]

theorem resolve?_declared (sound : before.Sound) {name : String}
    (fresh : (before.binding? before.current name).isSome = false) (place : Place) :
    (before.bind name .unset).resolve? place = before.resolve? place := by
  have unknown : before.binding? before.current name = none := by
    cases found : before.binding? before.current name with
    | none => rfl
    | some binding =>
      rw [found] at fresh
      cases fresh
  change (before.store before.current name .unset).resolve? place = before.resolve? place
  have aliases : ∀ place,
      (before.store before.current name .unset).alias? place = before.alias? place :=
    alias?_store (aliasRoot?_of_own (by rw [unknown]; nofun)) (by nofun)
  have values : ∀ root,
      (before.store before.current name .unset).rootValue? root = before.rootValue? root := by
    intro root
    by_cases here : root = .slot before.current name
    · have none : before.rootValue? (.slot before.current name) = none :=
        rootValue?_of_other (by rw [unknown]; nofun)
      rw [here, none]
      apply rootValue?_of_other
      intro source owner found
      rcases binding?_store_cases found with ⟨-, -, same⟩ | ⟨different, -⟩
      · cases same
      · exact different ⟨rfl, rfl⟩
    · exact rootValue?_store_of_ne here .unset
  have soundAfter : (before.store before.current name .unset).Sound :=
    (sound.store before.current name (by nofun)).1
  unfold resolve?
  rw [sound.canonical_congr soundAfter aliases]
  dsimp only
  rw [values]

/-- A value that can be changed is changed by a write, and the new one is read back. -/
theorem write?_reads (sound : before.Sound) {place : Place} {old : Value}
    (found : before.resolveMutable? place = some old) (value : Value) :
    ∃ changed, before.write? place value = some changed ∧ changed.resolve? place = some value := by
  unfold resolveMutable? at found
  split at found
  · rename_i mutable
    obtain ⟨atRoot, held, followed⟩ := Option.bind_eq_some_iff.mp found
    obtain ⟨replaced, done, reads⟩ := Value.replace?_reads followed value
    have writable : before.isRootWritable (before.canonical place).root = true :=
      (Bool.and_eq_true_iff.mp mutable).2
    refine ⟨before.setRoot (before.canonical place).root replaced, ?_, ?_⟩
    · unfold Context.write?
      dsimp only
      rw [held, Option.bind_eq_bind, Option.bind_some, done]
      rfl
    · have same := sound.canonical_congr (sound.setRoot _ replaced).1
        (alias?_setRoot before (before.canonical place).root replaced) place
      unfold resolve?
      rw [same]
      simp only [rootValue?_setRoot held writable replaced, Option.bind_eq_bind, Option.bind_some]
      exact reads
  · cases found

theorem writeTo_reads (sound : before.Sound) {place : Place} {value : Value}
    (done : Assignment.writeTo place value before = (.ok (), after)) :
    after.resolve? place = some value := by
  rw [Assignment.writeTo_eq] at done
  cases found : before.resolveMutable? place with
  | none =>
    rw [found] at done
    cases done
  | some old =>
    obtain ⟨changed, written, reads⟩ := sound.write?_reads found value
    rw [found, written] at done
    cases done
    exact reads

theorem insertAt_reads (sound : before.Sound) {container : Place} {key : String} {value : Value}
    (done : Assignment.insertAt container key value before = (.ok (), after)) :
    after.resolve? (container.child (.key key)) = some value := by
  rw [Assignment.insertAt_eq] at done
  cases found : before.resolveMutable? container with
  | none =>
    rw [found] at done
    cases done
  | some old =>
    cases inserted : old.insert? key value with
    | none =>
      simp only [found, inserted] at done
      cases done
    | some grown =>
      obtain ⟨changed, written, reads⟩ := sound.write?_reads found grown
      simp only [found, inserted, written] at done
      cases done
      rw [Place.child, resolve?_extend]
      change (changed.resolve? container).bind _ = _
      rw [reads]
      exact Value.follow?_insert? inserted

/-- A variable that becomes an alias reads as the container that it shares. -/
theorem resolve?_shared (sound : before.Sound) {frame : Nat} {name : String} {source : Place}
    {mutable : Bool} (inside : frame < before.depth)
    (different : (before.canonical source).root ≠ .slot frame name)
    (soundAfter : (before.store frame name (.alias (before.canonical source) mutable)).Sound) :
    (before.store frame name (.alias (before.canonical source) mutable)).resolve? (.slot frame name) =
      before.resolve? source := by
  generalize stored : before.store frame name (.alias (before.canonical source) mutable) = after
    at soundAfter ⊢
  have leads : after.alias? (.slot frame name) = some (before.canonical source, mutable) := by
    have bound : after.binding? frame name = some (.alias (before.canonical source) mutable) := by
      rw [← stored]
      exact binding?_store_self inside name _
    unfold alias? Place.slot Place.ofRoot
    dsimp only
    rw [bound]
    simp only [Place.extend, List.append_nil]
  have last : after.alias? (before.canonical source) = none := by
    rw [← sound.canonical_last source, ← stored]
    apply alias?_congr
    intro other word root
    apply binding?_store_of_ne
    rintro ⟨rfl, rfl⟩
    exact different root
  have value : after.rootValue? (before.canonical source).root =
      before.rootValue? (before.canonical source).root := by
    rw [← stored]
    exact rootValue?_store_of_ne different _
  unfold resolve?
  rw [soundAfter.canonical_alias leads, canonical_of_alias?_eq_none last]
  dsimp only
  rw [value]

/-- A variable reads as what has been assigned to it. -/
theorem stored_reads (sound : before.Sound) {frame : Nat} (inside : frame < before.depth)
    (name : String) (value : Handle) :
    (before.store frame name (Assignment.bindingFor before frame name value)).valueOf
      (.slot frame name) = before.valueOf value := by
  have soundAfter := (sound.assigned frame name value).1
  rcases bindingFor_cases before frame name value with
    ⟨source, container, mutable, leads, -, binding, different, -⟩ | binding |
      ⟨null, ⟨function, binding⟩ | ⟨hostClass, binding⟩⟩
  · rw [binding] at soundAfter ⊢
    rw [valueOf, valueOf, read?_of_place? leads, read?_of_place? rfl,
      sound.resolve?_shared inside different soundAfter]
  · rw [binding]
    have kept := binding?_store_self inside name (.ofValue (before.valueOf value))
    rw [valueOf, read?_of_place? rfl, resolve?_slot (aliasRoot?_of_own (by rw [kept]; nofun)),
      rootValue?_slot kept]
    rfl
  · rw [binding, null]
    exact valueOf_slot_of_other (by rw [binding?_store_self inside]; nofun)
      (by rw [binding?_store_self inside]; nofun)
  · rw [binding, null]
    exact valueOf_slot_of_other (by rw [binding?_store_self inside]; nofun)
      (by rw [binding?_store_self inside]; nofun)

/-- After an assignment the target reads as the value, whatever the target is. -/
theorem assign_reads (sound : before.Sound) {target value stored : Handle}
    (inside : ∀ frame name, target = .slot frame name → frame < before.depth)
    (done : Assignment.assign target value before = (.ok stored, after)) :
    after.valueOf stored = before.valueOf value := by
  have written {place : Place} (reads : after.resolve? place = some (before.valueOf value))
      {handle : Handle} (leads : handle.place? = some place) :
      after.valueOf handle = before.valueOf value := by
    rw [valueOf, read?_of_place? leads, reads]
    rfl
  rw [Assignment.assign, Rules.get_bind] at done
  cases target with
  | slot frame name =>
    cases hosted : Assignment.isHosted before frame name with
    | true =>
      simp only [hosted, if_true] at done
      obtain ⟨_, middle, put, ⟨⟩⟩ := Rules.bind_ok done
      exact written (sound.writeTo_reads put) rfl
    | false =>
      simp only [hosted] at done
      cases done
      exact sound.stored_reads (inside frame name rfl) name value
  | reference mutable place =>
    cases mutable with
    | true =>
      obtain ⟨_, middle, put, ⟨⟩⟩ := Rules.bind_ok done
      exact written (sound.writeTo_reads put) rfl
    | false => cases done
  | vacant container key =>
    obtain ⟨_, middle, put, ⟨⟩⟩ := Rules.bind_ok done
    exact written (sound.insertAt_reads put) rfl
  | _ => cases done

end Sound

end Context

end HtmlTemplate
