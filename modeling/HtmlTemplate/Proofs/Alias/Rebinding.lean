import HtmlTemplate.Proofs.Operands.Order

/-! Giving a name a new meaning. Another name keeps its own meaning, and reads as before unless the
chain of its aliases leads through the name. A chain that does goes on from there as the new meaning
does, so that such a name reads as a part of what the name now stands for. -/

namespace HtmlTemplate

namespace Context

/-- The chain of aliases from a root comes to some other root, and to what path there. -/
inductive Through (context : Context) (stop : Root) : Root → List Value.Segment → Prop where
  | here : Through context stop stop []
  | next {frame : Nat} {name : String} {place : Place} {mutable : Bool} {path : List Value.Segment}
      (different : .slot frame name ≠ stop)
      (bound : context.binding? frame name = some (.alias place mutable))
      (further : Through context stop place.root path) :
      Through context stop (.slot frame name) (path ++ place.path)

variable {context before after : Context} {frame : Nat} {name : String}

theorem binding_of_aliasRoot? {root target : Root} (leads : context.aliasRoot? root = some target) :
    ∃ frame name place mutable, root = .slot frame name ∧
      context.binding? frame name = some (.alias place mutable) ∧ place.root = target := by
  cases root with
  | temp frame index => cases leads
  | slot frame name =>
    unfold aliasRoot? at leads
    dsimp only at leads
    split at leads
    · rename_i place mutable bound
      exact ⟨frame, name, place, mutable, rfl, bound, Option.some.inj leads⟩
    · cases leads

theorem alias?_of_binding {place : Place} {mutable : Bool}
    (bound : context.binding? frame name = some (.alias place mutable)) (path : List Value.Segment) :
    context.alias? ⟨.slot frame name, path⟩ = some (place.extend path, mutable) := by
  unfold alias?
  dsimp only
  rw [bound]

/-- From a root that is no alias no chain comes anywhere else. -/
theorem Through.eq_of_last {stop root : Root} {path : List Value.Segment}
    (through : Through context stop root path) (last : context.aliasRoot? root = none) : root = stop := by
  cases through with
  | here => rfl
  | next different bound further =>
    rw [aliasRoot?_of_binding bound] at last
    cases last

/-- Where the chain leads through a root that is given a new meaning, it leads on from there. -/
theorem Through.resolve? {stop root : Root} {path : List Value.Segment}
    (through : Through before stop root path) (sound : after.Sound)
    (same : ∀ {frame name}, .slot frame name ≠ stop → after.binding? frame name = before.binding? frame name)
    (rest : List Value.Segment) : after.resolve? ⟨root, rest⟩ = after.resolve? ⟨stop, path ++ rest⟩ := by
  induction through generalizing rest with
  | here => rfl
  | @next frame name place mutable path different bound further step =>
    have leads : after.alias? ⟨.slot frame name, rest⟩ = some (place.extend rest, mutable) :=
      alias?_of_binding ((same different).trans bound) rest
    have ends : after.resolve? ⟨.slot frame name, rest⟩ = after.resolve? (place.extend rest) := by
      unfold Context.resolve?
      rw [sound.canonical_alias leads]
    rw [ends, List.append_assoc]
    exact step (place.path ++ rest)

/-- What does not lead to a name that is given a new meaning is as it was. -/
theorem agreeOn_store (context : Context) (frame : Nat) (name : String) (binding : Binding) :
    AgreeOn (fun root => ∀ path, ¬ Through context (.slot frame name) root path) context
      (context.store frame name binding) where
  leads := by
    intro root target clear leads path through
    obtain ⟨other, word, place, mutable, rfl, bound, rfl⟩ := binding_of_aliasRoot? leads
    refine clear (path ++ place.path) (.next ?_ bound through)
    intro same
    exact clear [] (same ▸ .here)
  aliases := by
    intro place clear
    apply alias?_congr
    intro other word begins
    apply binding?_store_of_ne
    rintro ⟨rfl, rfl⟩
    exact clear [] (begins ▸ .here)
  values := by
    intro root clear
    apply rootValue?_store_of_ne
    intro same
    exact clear [] (same ▸ .here)

end Context

namespace Operands

open Rules Context

variable {context : Context} {mode : EvalMode} {target value : Expr} {frame : Nat} {name : String}

theorem assign_slot (own : Assignment.isHosted context frame name = false) (given : Handle) :
    Assignment.assign (.slot frame name) given context =
      (.ok (.slot frame name), context.store frame name (Assignment.bindingFor context frame name given)) := by
  rw [Assignment.assign, get_bind]
  dsimp only
  rw [own]
  rfl

/-- An assignment to a name fails before anything is changed, or stores what was evaluated. -/
theorem eval_rebinds (operand : (Eval.eval mode.operand value context).2 = context)
    (reached : Eval.eval .writing target context = (.ok (.slot frame name), context))
    (own : Assignment.isHosted context frame name = false) :
    (∃ fault, Eval.eval mode.operand value context = (.error fault, context) ∧
      Eval.eval mode (.binary .assign target value) context = (.error fault, context)) ∨
    ∃ given, Eval.eval mode.operand value context = (.ok given, context) ∧
      Eval.eval mode (.binary .assign target value) context =
        (.ok (.slot frame name), context.store frame name (Assignment.bindingFor context frame name given)) := by
  rcases ends_of_unchanged operand with ⟨fault, failed⟩ | ⟨given, ran⟩
  · refine .inl ⟨fault, failed, ?_⟩
    rw [Eval.eval, bind_eq, failed]
  · refine .inr ⟨given, ran, ?_⟩
    rw [eval_assign ⟨given, context, .slot frame name, context, ran, reached⟩]
    exact assign_slot own given

/-- After a plain assignment to a name of its own, whose value is evaluated without a change, every
other name of every open scope means what it meant. It reads as before if no chain of aliases leads
from it through the assigned name, and else as the part of what that name now reads as. -/
theorem rebound_reads (reachable : context.Reachable)
    (operand : (Eval.eval mode.operand value context).2 = context)
    (reached : Eval.eval .writing target context = (.ok (.slot frame name), context))
    (own : Assignment.isHosted context frame name = false) {after : Context}
    (ran : (Eval.eval mode (.binary .assign target value) context).2 = after) :
    (∀ given, Eval.eval mode.operand value context = (.ok given, context) →
      after.valueOf (.slot frame name) = context.valueOf given) ∧
    ∀ other word, ¬ (other = frame ∧ word = name) →
      after.binding? other word = context.binding? other word ∧
      ((∀ path, ¬ Through context (.slot frame name) (.slot other word) path) →
        after.resolve? (.slot other word) = context.resolve? (.slot other word)) ∧
      ∀ path, Through context (.slot frame name) (.slot other word) path →
        after.resolve? (.slot other word) =
          (after.resolve? (.slot frame name)).bind (Value.follow? path) := by
  have sound := reachable.sound
  have inside : frame < context.depth := eval_within sound reached
  have followed {after : Context} (soundAfter : after.Sound)
      (same : ∀ {other word}, Root.slot other word ≠ .slot frame name →
        after.binding? other word = context.binding? other word) {other : Nat} {word : String}
      {path : List Value.Segment} (through : Through context (.slot frame name) (.slot other word) path) :
      after.resolve? (.slot other word) =
        (after.resolve? (.slot frame name)).bind (Value.follow? path) := by
    rw [← resolve?_extend]
    have leads := through.resolve? soundAfter same []
    rwa [List.append_nil] at leads
  rcases eval_rebinds operand reached own with ⟨fault, failed, ended⟩ | ⟨given, evaluated, ended⟩
  · rw [ended] at ran
    subst ran
    refine ⟨fun given evaluated => ?_, fun other word different => ⟨rfl, fun _ => rfl, fun path through => ?_⟩⟩
    · rw [failed] at evaluated
      cases evaluated
    · exact followed sound (fun _ => rfl) through
  · rw [ended] at ran
    subst ran
    have soundAfter := (sound.assigned frame name given).1
    have elsewhere {other word} (different : ¬ (other = frame ∧ word = name)) :
        (context.store frame name (Assignment.bindingFor context frame name given)).binding? other word =
          context.binding? other word :=
      binding?_store_of_ne different (Assignment.bindingFor context frame name given)
    refine ⟨fun other evaluatedOther => ?_, fun other word different => ⟨elsewhere different, ?_, ?_⟩⟩
    · rw [evaluated] at evaluatedOther
      cases evaluatedOther
      exact sound.stored_reads inside name given
    · intro clear
      exact (agreeOn_store context frame name _).resolve? sound soundAfter clear
    · intro path through
      refine followed soundAfter (fun differentRoot => elsewhere ?_) through
      rintro ⟨rfl, rfl⟩
      exact differentRoot rfl

/-! A name that stands for the array of another one. -/

def listed : Context := Context.new.set "x" (.array [.int 1])

/-- After `var y = x`. -/
def doubled : Context := listed.store 0 "y" (.alias (.slot 0 "x") true)

theorem doubled_reachable : doubled.Reachable := by
  have same : (listed.evaluate .strict
      (.binary .assign (.unary .declare (.name "y")) (.name "x"))).2 = doubled := by
    unfold Context.evaluate Eval.eval Eval.eval
    rfl
  exact same ▸ .evaluate (.set .new _ _) _ _

theorem name_found {word : String} (known : doubled.find? word = some 0)
    (own : ∀ function, doubled.binding? 0 word ≠ some (.function function))
    (noClass : ∀ hostClass, doubled.binding? 0 word ≠ some (.hostClass hostClass)) :
    Eval.eval .writing (.name word) doubled = (.ok (.slot 0 word), doubled) := by
  unfold Eval.eval
  rw [Eval.lookupName_eq, known]
  dsimp only [Option.elim_some]
  unfold Eval.meaning
  split
  · exact absurd ‹_› (own _)
  · exact absurd ‹_› (noClass _)
  · rfl

/-- The statement `y = 2` leaves `x` alone. -/
theorem copy_rebound :
    doubled.Reachable ∧
    (Eval.eval EvalMode.strict.operand (.literal (.int 2)) doubled).2 = doubled ∧
    Eval.eval .writing (.name "y") doubled = (.ok (.slot 0 "y"), doubled) ∧
    Assignment.isHosted doubled 0 "y" = false ∧
    ∀ after, (Eval.eval .strict (.binary .assign (.name "y") (.literal (.int 2))) doubled).2 = after →
      after.resolve? (.slot 0 "x") = some (.array [.int 1]) := by
  have literal : Eval.eval EvalMode.strict.operand (.literal (.int 2)) doubled =
      (.ok (.owned (.int 2)), doubled) := by
    unfold Eval.eval
    rfl
  have reached : Eval.eval .writing (.name "y") doubled = (.ok (.slot 0 "y"), doubled) :=
    name_found rfl (by nofun) (by nofun)
  have operand := congrArg Prod.snd literal
  refine ⟨doubled_reachable, operand, reached, rfl, fun after ran => ?_⟩
  obtain ⟨-, others⟩ := rebound_reads doubled_reachable operand reached rfl ran
  obtain ⟨-, untouched, -⟩ := others 0 "x" (by decide)
  rw [untouched]
  · rfl
  · intro path through
    exact absurd (through.eq_of_last rfl) (by decide)

/-- The statement `x = 2` makes `y` read as two. -/
theorem source_rebound :
    doubled.Reachable ∧
    (Eval.eval EvalMode.strict.operand (.literal (.int 2)) doubled).2 = doubled ∧
    Eval.eval .writing (.name "x") doubled = (.ok (.slot 0 "x"), doubled) ∧
    Assignment.isHosted doubled 0 "x" = false ∧
    doubled.resolve? (.slot 0 "y") = some (.array [.int 1]) ∧
    (Eval.eval .strict (.binary .assign (.name "x") (.literal (.int 2))) doubled).2.resolve? (.slot 0 "y") =
      some (.int 2) := by
  refine ⟨doubled_reachable, ?_, name_found rfl (by nofun) (by nofun), rfl, rfl, ?_⟩
  · unfold Eval.eval
    rfl
  · unfold Eval.eval Eval.eval
    rfl

end Operands

end HtmlTemplate
