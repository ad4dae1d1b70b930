import HtmlTemplate.Proofs.Folding.Refolding
import HtmlTemplate.Proofs.Rules.Actions
import HtmlTemplate.Proofs.Rules.Unseen
import Mathlib.Data.List.Induction

/-! Two contexts that differ in the bodies of mixins alone: the bodies in the one are what the
bodies in the other are folded into. -/

namespace HtmlTemplate.Folding

/-- The host takes all reports, none waits from before it did, and there is no template to include. -/
structure Calm (context : Context) : Prop where
  taken : context.reports.taken.isSome = true
  idle : context.reports.pending = []
  alone : ∀ name, context.loader name = .missing

theorem Calm.congr {context other : Context} (calm : Calm context)
    (reports : other.reports = context.reports) (loader : other.loader = context.loader) :
    Calm other :=
  ⟨reports ▸ calm.taken, reports ▸ calm.idle, loader ▸ calm.alone⟩

theorem Calm.reportFault {context : Context} (calm : Calm context) (fault : EvalFault) :
    Calm (context.reportFault fault) := by
  obtain ⟨messages, taken⟩ := Option.isSome_iff_exists.mp calm.taken
  refine ⟨?_, ?_, calm.alone⟩
  · simp only [Context.reportFault, Reports.add, taken]
    rfl
  · simp only [Context.reportFault, Reports.add, taken]
    exact calm.idle

theorem calm_written : Rules.Kept Calm fun _ _ => True where
  growth := ⟨fun _ => trivial, fun _ _ => trivial⟩
  writes calm step := by
    obtain ⟨frames, hosted, rfl⟩ := step.elsewhere
    exact ⟨calm.congr rfl rfl, trivial⟩

/-- Everything that a run does within a scope leaves a context calm. -/
theorem calm_kept : Rules.ContextKept Calm fun _ _ => True where
  growth := calm_written.growth
  evaluated := Rules.eval_stays calm_written
  listed := Rules.evalItems_stays calm_written
  reported _ context calm := ⟨calm.reportFault _, trivial⟩
  told calm _ := by
    refine ⟨⟨?_, calm.idle, calm.alone⟩, trivial⟩
    simp only [Context.notify, Option.isSome_map, calm.taken]
  taken context calm := ⟨⟨calm.taken, rfl, calm.alone⟩, trivial⟩
  forgotten context calm := ⟨⟨calm.taken, calm.idle, calm.alone⟩, trivial⟩
  named name value context calm := ⟨calm.congr rfl rfl, trivial⟩
  stored value context calm := ⟨calm.congr rfl rfl, trivial⟩
  defined calm defined := by
    unfold Context.defineMixin at defined
    split at defined
    · cases defined
    · cases defined
      exact ⟨calm.congr rfl rfl, trivial⟩

theorem calm_counting : Rules.StepsKept Calm fun _ _ => True where
  counted _ calm := ⟨calm.congr rfl rfl, trivial⟩
  refused _ calm := ⟨calm.reportFault .stepLimit, trivial⟩

theorem Calm.popScope {context : Context} (calm : Calm context) : Calm context.popScope := by
  unfold Context.popScope
  split
  · exact calm.congr rfl rfl
  · exact calm

section

variable (fold : Expr → Option Value)

/-- The same mixin, with its body and with what the body is folded into. -/
structure SameMixin (plain folded : Mixin) : Prop where
  name : folded.name = plain.name
  parameters : folded.parameters = plain.parameters
  body : Folds fold true "" plain.body folded.body

/-- Two tables with the same mixins. -/
inductive SameMixins : Entries Mixin → Entries Mixin → Prop where
  | none : SameMixins [] []
  | more {name : String} {plain folded : Mixin} {rest others : Entries Mixin}
      (same : SameMixin fold plain folded) (further : SameMixins rest others) :
      SameMixins ((name, plain) :: rest) ((name, folded) :: others)

/-- Two contexts that are the same but for the bodies of mixins. -/
inductive Twins : Context → Context → Prop where
  | intro (base : Context) {plain folded : Nat → Entries Mixin}
      (same : ∀ frame, SameMixins fold (plain frame) (folded frame)) (calm : Calm base) :
      Twins (base.withMixins plain) (base.withMixins folded)

theorem sameMixins_refl (mixins : Entries Mixin) : SameMixins fold mixins mixins := by
  induction mixins with
  | nil => exact .none
  | cons entry rest step => exact .more ⟨rfl, rfl, folds_refl fold _⟩ step

end

variable {fold : Expr → Option Value}

theorem SameMixins.lookup {plain folded : Entries Mixin} (same : SameMixins fold plain folded)
    (name : String) :
    Option.Rel (SameMixin fold) (Entries.lookup name plain) (Entries.lookup name folded) := by
  induction same with
  | none => exact .none
  | more same further step =>
    unfold Entries.lookup
    split
    · exact .some same
    · exact step

theorem SameMixins.contains {plain folded : Entries Mixin} (same : SameMixins fold plain folded)
    (name : String) : Entries.contains name folded = Entries.contains name plain := by
  have found := same.lookup name
  unfold Entries.contains
  generalize Entries.lookup name plain = mixin at found
  generalize Entries.lookup name folded = other at found
  cases found <;> rfl

theorem SameMixins.insert {plain folded : Entries Mixin} (same : SameMixins fold plain folded)
    {mixin other : Mixin} (alike : SameMixin fold mixin other) (name : String) :
    SameMixins fold (Entries.insert name mixin plain) (Entries.insert name other folded) := by
  induction same with
  | none => exact .more alike .none
  | more first further step =>
    unfold Entries.insert
    split
    · exact .more alike further
    · split
      · exact .more alike (.more first further)
      · exact .more first step

/-- Whether a mixin can be made does not depend on its body. -/
theorem ofDefinition_cases (name : String) (signature : Expr) :
    (∃ fault, ∀ body, Mixin.ofDefinition name signature body = .error fault) ∨
      ∃ parameters ordered, ∀ body, Mixin.ofDefinition name signature body =
        .ok { name, parameters, ordered, body } := by
  cases found : Mixin.parameters? signature with
  | error fault =>
    refine .inl ⟨fault, fun body => ?_⟩
    unfold Mixin.ofDefinition
    split
    · rename_i parameters other
      rw [found] at other
      cases other
    · rename_i fault other
      rw [found] at other
      cases other
      rfl
  | ok parameters =>
    refine .inr ⟨parameters, Mixin.ordered_of_parameters? found, fun body => ?_⟩
    unfold Mixin.ofDefinition
    split
    · rename_i parameters other
      rw [found] at other
      cases other
      rfl
    · rename_i fault other
      rw [found] at other
      cases other

namespace Twins

variable {context twin : Context} {α : Type}

theorem refl (calm : Calm context) : Twins fold context context := by
  have twins := Twins.intro context (fun frame => sameMixins_refl fold (context.mixinsAt frame)) calm
  rw [Context.withMixins_mixinsAt] at twins
  exact twins

theorem calm (twins : Twins fold context twin) : Calm context ∧ Calm twin := by
  obtain ⟨base, -, calm⟩ := twins
  exact ⟨calm.congr rfl rfl, calm.congr rfl rfl⟩

theorem escapeOutput (twins : Twins fold context twin) :
    twin.escapeOutput = context.escapeOutput := by
  obtain ⟨base, -, -⟩ := twins
  rfl

/-- What does not look at mixins goes alike. -/
theorem act (twins : Twins fold context twin) {action : Context → α × Context}
    (blind : Rules.Blind action) (acts : Rules.Acts Calm (fun _ _ => True) action) :
    (action twin).1 = (action context).1 ∧ Twins fold (action context).2 (action twin).2 := by
  obtain ⟨base, same, calm⟩ := twins
  rw [blind _ base, blind _ base]
  exact ⟨rfl, .intro _ same (acts base calm).1⟩

theorem change (twins : Twins fold context twin) {change : Context → Context}
    (blind : Rules.BlindChange change) (keeps : Rules.Keeps Calm (fun _ _ => True) change) :
    Twins fold (change context) (change twin) := by
  obtain ⟨base, same, calm⟩ := twins
  rw [blind _ base, blind _ base]
  exact .intro _ same (keeps base calm).1

theorem pushScope (twins : Twins fold context twin) :
    Twins fold context.pushScope twin.pushScope := by
  obtain ⟨base, same, calm⟩ := twins
  rw [Context.pushScope_withMixins, Context.pushScope_withMixins]
  refine .intro _ (fun frame => ?_) (calm.congr rfl rfl)
  split
  · exact .none
  · exact same frame

theorem popScope (twins : Twins fold context twin) : Twins fold context.popScope twin.popScope := by
  obtain ⟨base, same, calm⟩ := twins
  rw [Context.popScope_withMixins, Context.popScope_withMixins]
  exact .intro _ same calm.popScope

theorem mixin? (twins : Twins fold context twin) (name : String) :
    Option.Rel (SameMixin fold) (context.mixin? name) (twin.mixin? name) := by
  obtain ⟨base, same, -⟩ := twins
  unfold Context.mixin? Context.withMixins
  dsimp only
  induction base.frames using List.reverseRecOn with
  | nil => exact .none
  | append_singleton frames frame step =>
    simp only [List.mapIdx_concat, List.reverse_append, List.reverse_singleton,
      List.singleton_append, List.findSome?_cons]
    have found := (same frames.length).lookup name
    generalize Entries.lookup name _ = mixin at found ⊢
    generalize Entries.lookup name _ = other at found ⊢
    cases found with
    | none => exact step
    | some same => exact .some same

theorem defineMixin (twins : Twins fold context twin) {mixin other : Mixin}
    (same : SameMixin fold mixin other) :
    (∃ fault, context.defineMixin mixin = .error fault ∧ twin.defineMixin other = .error fault) ∨
      ∃ after following, context.defineMixin mixin = .ok after ∧
        twin.defineMixin other = .ok following ∧ Twins fold after following := by
  obtain ⟨base, sameMixins, calm⟩ := twins
  unfold Context.defineMixin
  simp only [Context.current_withMixins, Context.frame_withMixins, same.name, Option.any_map,
    (sameMixins base.current).contains]
  split
  · exact .inl ⟨_, rfl, rfl⟩
  · refine .inr ⟨_, _, rfl, rfl, ?_⟩
    rw [Context.changeMixins_withMixins, Context.changeMixins_withMixins]
    refine .intro _ (fun frame => ?_) calm
    split
    · exact (sameMixins frame).insert same mixin.name
    · exact sameMixins frame

theorem reportFault (twins : Twins fold context twin) (fault : EvalFault) :
    Twins fold (context.reportFault fault) (twin.reportFault fault) :=
  twins.change (fun _ _ => rfl) fun _ calm => ⟨calm.reportFault fault, trivial⟩

theorem define (twins : Twins fold context twin) (name : String) (signature : Expr)
    {body folded : List Chunk} (inner : Folds fold true "" body folded) :
    Twins fold (Render.define name signature body context)
      (Render.define name signature folded twin) := by
  unfold Render.define
  rcases ofDefinition_cases name signature with ⟨fault, fails⟩ | ⟨parameters, ordered, made⟩
  · rw [fails, fails]
    exact twins.reportFault fault
  · rw [made, made]
    have same : SameMixin fold { name, parameters, ordered, body } { name, parameters, ordered, body := folded } :=
      ⟨rfl, rfl, inner⟩
    rcases twins.defineMixin same with ⟨fault, first, second⟩ | ⟨after, following, first, second, alike⟩
    · simp only [bind, Except.bind, first, second]
      exact twins.reportFault fault
    · simp only [bind, Except.bind, first, second]
      exact alike

/-- The scope of a call is opened alike, or the call is refused on both sides. -/
theorem enter (twins : Twins fold context twin) {mixin other : Mixin}
    (same : SameMixin fold mixin other) (arguments : List Value) :
    (other.enter arguments twin).1 = (mixin.enter arguments context).1 ∧
      Twins fold (mixin.enter arguments context).2 (other.enter arguments twin).2 := by
  obtain ⟨bound, entered⟩ := twins.pushScope.act
    (fun mixins => Rules.bindParameters_ignores (Rules.mixins_unseen mixins) mixin.name _ arguments)
    (Rules.bindParameters_acts calm_kept mixin.name mixin.parameters arguments)
  unfold Mixin.enter
  rw [same.name, same.parameters]
  generalize Mixin.bindParameters mixin.name mixin.parameters arguments context.pushScope = result
    at bound entered
  generalize Mixin.bindParameters mixin.name mixin.parameters arguments twin.pushScope = other
    at bound entered
  obtain ⟨complete, after⟩ := result
  obtain ⟨completed, following⟩ := other
  obtain rfl : completed = complete := bound
  cases completed with
  | true => exact ⟨rfl, entered⟩
  | false => exact ⟨rfl, entered.popScope⟩

end Twins

end HtmlTemplate.Folding
