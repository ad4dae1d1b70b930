import HtmlTemplate.Proofs.Alias.Places
import HtmlTemplate.Proofs.Context.Mixins
import HtmlTemplate.Proofs.Rules.Evaluation
import HtmlTemplate.Proofs.Rules.Resemblance

/-! Expressions that only read, in two contexts that read alike. The contexts have the same names, but a
name may be an alias in the one and a value of its own in the other; what such an expression yields is
read the same in both, and neither is changed. -/

namespace HtmlTemplate

namespace Expr

/-- Nothing is assigned in an expression, stepped up or down, or declared. -/
def isReading : Expr → Bool
  | unary op operand =>
    (op != .declare && op != .preIncrement && op != .preDecrement && op != .postIncrement &&
      op != .postDecrement) && isReading operand
  | binary op left right => !op.isAssignment && isReading left && isReading right
  | bracketed _ inner => isReading inner
  | _ => true

theorem isReading_unary {op : Op} {operand : Expr} (reading : (unary op operand).isReading = true) :
    (op ≠ .declare ∧ op ≠ .preIncrement ∧ op ≠ .preDecrement ∧ op ≠ .postIncrement ∧ op ≠ .postDecrement) ∧
      operand.isReading = true := by
  simpa [isReading, and_assoc] using reading

theorem isReading_binary {op : Op} {left right : Expr} (reading : (binary op left right).isReading = true) :
    op.isAssignment = false ∧ left.isReading = true ∧ right.isReading = true := by
  simpa [isReading, and_assoc] using reading

theorem reading_hereditary : Hereditary fun expr => expr.isReading = true where
  operand reading := (isReading_unary reading).2
  sides reading := (isReading_binary reading).2
  inner reading := reading

end Expr

theorem Rules.reading_parts : Parts (fun expr => expr.isReading = true) (fun _ => True) false where
  name _ := trivial
  operand := Expr.reading_hereditary.operand
  left reading _ := (Expr.reading_hereditary.sides reading).1
  right reading _ := (Expr.reading_hereditary.sides reading).2
  inner := Expr.reading_hereditary.inner
  items := Expr.reading_hereditary.items
  entry reading found := ⟨fun _ => (Expr.reading_hereditary.entry? reading found).1,
    (Expr.reading_hereditary.entry? reading found).2⟩
  declares reading _ := absurd rfl (Expr.isReading_unary reading).1.1
  steps := by
    intro op operand reading steps
    obtain ⟨⟨-, notFirst, notSecond, notThird, notFourth⟩, -⟩ := Expr.isReading_unary reading
    rcases steps with same | same | same | same
    · exact absurd same notFirst
    · exact absurd same notSecond
    · exact absurd same notThird
    · exact absurd same notFourth
  assigns := by
    intro op left right reading assigns
    rw [(Expr.isReading_binary reading).1] at assigns
    cases assigns

/-- Handles that yield the same in contexts that read alike: the same, but for whether a reference may
be written through. -/
inductive Handle.Parallel : Handle → Handle → Prop where
  | undefined : Parallel .undefined .undefined
  | absent : Parallel .absent .absent
  | owned (value : Value) : Parallel (.owned value) (.owned value)
  | slot (frame : Nat) (name : String) : Parallel (.slot frame name) (.slot frame name)
  | reference (mutable other : Bool) (frame : Nat) (name : String) (path : List Value.Segment) :
      Parallel (.reference mutable ⟨.slot frame name, path⟩) (.reference other ⟨.slot frame name, path⟩)
  | function (function : HostFunction) (receiver : Option Value) :
      Parallel (.function function receiver) (.function function receiver)
  | hostClass (hostClass : HostClass) : Parallel (.hostClass hostClass) (.hostClass hostClass)

namespace Context

/-- A name of a scope stands for the same in two contexts, or reads as the same value. -/
structure SlotAlike (first second : Context) (frame : Nat) (name : String) : Prop where
  known : (first.binding? frame name).isSome = (second.binding? frame name).isSome
  meaning : Eval.meaning frame name (first.binding? frame name) =
    Eval.meaning frame name (second.binding? frame name)
  reads : first.resolve? (.slot frame name) = second.resolve? (.slot frame name)
  owner : first.owner? (.slot frame name) = second.owner? (.slot frame name)

/-- Contexts without a limit of steps that cannot be told apart by reading. -/
structure ReadsAlike (first second : Context) : Prop where
  sound : first.Sound
  soundTwin : second.Sound
  depth : first.depth = second.depth
  slots : ∀ frame name, SlotAlike first second frame name
  mixins : ∀ frame, first.mixinsAt frame = second.mixinsAt frame
  escapes : first.escapeOutput = second.escapeOutput
  unlimited : first.stepLimit = none ∧ second.stepLimit = none

theorem ReadsAlike.refl {context : Context} (sound : context.Sound) (unlimited : context.stepLimit = none) :
    ReadsAlike context context where
  sound := sound
  soundTwin := sound
  depth := rfl
  slots _ _ := ⟨rfl, rfl, rfl, rfl⟩
  mixins _ := rfl
  escapes := rfl
  unlimited := ⟨unlimited, unlimited⟩

/-- An element of a container has no class of its own. -/
theorem owner?_extend (context : Context) (place : Place) {path : List Value.Segment} (inside : path ≠ []) :
    context.owner? (place.extend path) = none := by
  unfold owner?
  rw [canonical_extend]
  generalize context.canonical place = base
  obtain ⟨root, rest⟩ := base
  cases together : rest ++ path with
  | nil => exact absurd (List.append_eq_nil_iff.mp together).2 inside
  | cons segment others =>
    simp only [Place.extend, together]

namespace ReadsAlike

variable {first second : Context} {handle other : Handle}

theorem find? (alike : ReadsAlike first second) (name : String) : first.find? name = second.find? name :=
  find?_congr alike.depth fun frame => (alike.slots frame name).known

theorem resolve? (alike : ReadsAlike first second) (frame : Nat) (name : String) (path : List Value.Segment) :
    first.resolve? ⟨.slot frame name, path⟩ = second.resolve? ⟨.slot frame name, path⟩ := by
  have one := first.resolve?_extend (.slot frame name) path
  have twin := second.resolve?_extend (.slot frame name) path
  rw [(alike.slots frame name).reads, ← twin] at one
  exact one

theorem owner? (alike : ReadsAlike first second) (frame : Nat) (name : String) (path : List Value.Segment) :
    first.owner? ⟨.slot frame name, path⟩ = second.owner? ⟨.slot frame name, path⟩ := by
  cases path with
  | nil => exact (alike.slots frame name).owner
  | cons segment rest =>
    have one := first.owner?_extend (.slot frame name) (List.cons_ne_nil segment rest)
    have twin := second.owner?_extend (.slot frame name) (List.cons_ne_nil segment rest)
    exact one.trans twin.symm

theorem read? (alike : ReadsAlike first second) (parallel : handle.Parallel other) :
    first.read? handle = second.read? other := by
  cases parallel with
  | slot frame name => exact alike.resolve? frame name []
  | reference mutable other frame name path => exact alike.resolve? frame name path
  | _ => rfl

theorem valueOf (alike : ReadsAlike first second) (parallel : handle.Parallel other) :
    first.valueOf handle = second.valueOf other :=
  congrArg (·.getD .null) (alike.read? parallel)

/-- An element of the value at a place that a name leads to. -/
theorem atPlace (alike : ReadsAlike first second) (frame : Nat) (name : String) (path : List Value.Segment)
    (member : Member) :
    (Member.atPlace first ⟨.slot frame name, path⟩ false member).Parallel
      (Member.atPlace second ⟨.slot frame name, path⟩ false member) := by
  unfold Member.atPlace
  rw [alike.resolve? frame name path]
  split
  · exact .absent
  · split
    · exact .reference ..
    · exact .owned _
    · exact .absent

theorem member (alike : ReadsAlike first second) (parallel : handle.Parallel other) (member : Member) :
    (Member.ofHandle first handle false member).Parallel (Member.ofHandle second other false member) := by
  have placed (mutable writable : Bool) (frame : Nat) (name : String) (path : List Value.Segment) :
      (Member.ofHandle first (.reference mutable ⟨.slot frame name, path⟩) false member).Parallel
        (Member.ofHandle second (.reference writable ⟨.slot frame name, path⟩) false member) := by
    have method : Member.method? first ⟨.slot frame name, path⟩ member =
        Member.method? second ⟨.slot frame name, path⟩ member := by
      cases member with
      | name word => exact congrArg (· >>= fun owner => owner.members.lookup word) (alike.owner? frame name path)
      | index number => rfl
    unfold Member.ofHandle
    dsimp only [Handle.place?]
    rw [method, alike.resolve? frame name path]
    split
    · exact .function ..
    · exact alike.atPlace frame name path member
  cases parallel with
  | undefined => exact .absent
  | absent => exact .absent
  | owned value =>
    unfold Member.ofHandle Member.ofOwned
    dsimp only
    split
    · exact .owned _
    · exact .owned _
    · exact .absent
  | slot frame name => exact placed true true frame name []
  | reference mutable other frame name path => exact placed mutable other frame name path
  | function function receiver => exact .absent
  | hostClass hostClass =>
    unfold Member.ofHandle
    dsimp only
    split
    · exact .function ..
    · exact .absent

theorem looked (alike : ReadsAlike first second) (mode : EvalMode) (name : String) :
    Rules.Alike Handle.Parallel (fun context twin => context = first ∧ twin = second)
      (Eval.lookupName mode name first) (Eval.lookupName mode name second) := by
  rw [Eval.lookupName_eq, Eval.lookupName_eq, alike.find? name]
  cases second.find? name with
  | none =>
    dsimp only [Option.elim_none]
    split
    · exact .ok .absent ⟨rfl, rfl⟩
    · exact .error ⟨rfl, rfl⟩
  | some frame =>
    dsimp only [Option.elim_some]
    rw [(alike.slots frame name).meaning]
    refine .ok ?_ ⟨rfl, rfl⟩
    unfold Eval.meaning
    split
    · exact .function ..
    · exact .hostClass _
    · exact .slot ..

/-- Nothing is asked of what writes do, as the two contexts stay what they are. -/
theorem resemblance (alike : ReadsAlike first second) :
    Rules.Resemblance (fun context twin => context = first ∧ twin = second) Handle.Parallel (fun _ => True)
      false where
  owned value := .owned value
  valueOf := by
    rintro _ _ handle other ⟨rfl, rfl⟩ parallel
    exact alike.valueOf parallel
  called := by
    intro callee other parallel arguments
    cases parallel <;> rfl
  member := by
    rintro _ _ base other ⟨rfl, rfl⟩ parallel target reading member
    cases target with
    | true => cases reading rfl
    | false => exact alike.member parallel member
  settled := by nofun
  updated := by nofun
  assigned := by nofun
  looked := by
    rintro mode name - _ _ ⟨rfl, rfl⟩
    exact alike.looked mode name
  declared := by nofun

theorem eval (alike : ReadsAlike first second) {expr : Expr} (reading : expr.isReading = true) {mode : EvalMode}
    (reads : mode.target = false) :
    Rules.Alike Handle.Parallel (fun context twin => context = first ∧ twin = second)
      (Eval.eval mode expr first) (Eval.eval mode expr second) :=
  Rules.eval_resembles Rules.reading_parts alike.resemblance mode expr reading
    (fun writes => by rw [reads] at writes; cases writes) first second ⟨rfl, rfl⟩

end ReadsAlike

/-- Two contexts are as before, or the same fault has been reported in both. -/
inductive Reported (first second : Context) : Context → Context → Prop where
  | silent : Reported first second first second
  | fault (fault : EvalFault) : Reported first second (first.reportFault fault) (second.reportFault fault)

/-- An expression that only reads yields the same in both contexts, or fails with the same fault. -/
theorem ReadsAlike.evaluate {first second : Context} (alike : ReadsAlike first second) {expr : Expr}
    (reading : expr.isReading = true) {mode : EvalMode} (reads : mode.target = false) :
    (first.evaluate mode expr).1.Parallel (second.evaluate mode expr).1 ∧
      Reported first second (first.evaluate mode expr).2 (second.evaluate mode expr).2 := by
  have ended := alike.eval reading reads
  unfold Context.evaluate
  generalize Eval.eval mode expr first = one at ended
  generalize Eval.eval mode expr second = twin at ended
  cases ended with
  | ok parallel same =>
    obtain ⟨rfl, rfl⟩ := same
    exact ⟨parallel, .silent⟩
  | error same =>
    obtain ⟨rfl, rfl⟩ := same
    exact ⟨.undefined, .fault _⟩

end Context

end HtmlTemplate
