import HtmlTemplate.Proofs.Building.Weaving

/-! Conditions on what is built, one builder at a time. A condition that each chunk and each text keeps is
kept by whole trees. -/

namespace HtmlTemplate.Building

open Builder Compilation Folding

/-- A computation that does not fail and leads from one condition to another. -/
def Goes (before after : Builder → Prop) (program : BuildM Unit) : Prop :=
  ∀ builder, before builder → ∃ built, program builder = .ok ((), built) ∧ after built

/-- Two builders of which the same is true. -/
def Both (holds : Builder → Prop) (builder twin : Builder) : Prop := holds builder ∧ holds twin

namespace Goes

variable {before between after : Builder → Prop} {first second : BuildM Unit}

theorem pure (same : ∀ {builder}, before builder → after builder) : Goes before after (Pure.pure ()) :=
  fun builder holds => ⟨builder, rfl, same holds⟩

theorem bind {next : Unit → BuildM Unit} (goes : Goes before between first)
    (goesOn : Goes between after (next ())) : Goes before after (first >>= next) := by
  intro builder holds
  obtain ⟨middle, built, holds⟩ := goes builder holds
  obtain ⟨last, went, holds⟩ := goesOn middle holds
  exact ⟨last, by rw [build_bind_eq, built]; exact went, holds⟩

theorem woven {faults : StructureError → StructureError → Prop} (goes : Goes before after first)
    (other : Goes before after second) : Woven faults (Both before) (Both after) first second := by
  rintro builder twin ⟨holds, twinHolds⟩
  obtain ⟨built, ran, holds⟩ := goes builder holds
  obtain ⟨twinBuilt, twinRan, twinHolds⟩ := other twin twinHolds
  rw [ran, twinRan]
  exact .ok ⟨holds, twinHolds⟩

end Goes

/-- The body of a chunk, and the chunk. -/
theorem enclosed_both {faults : StructureError → StructureError → Prop}
    {begun inner before after : Builder → Prop} {make : List Chunk → Chunk} {first second : BuildM Unit}
    (blank : ∀ {builder : Builder}, builder.IsBlank → begun builder)
    (body : Woven faults (Both begun) (Both inner) first second)
    (ends : ∀ {outer inside built : Builder}, before outer → inner inside →
      built.chunks = outer.chunks ++ [make inside.chunks] → after built) :
    Woven faults (Both before) (Both after) (do emit (make (← enclosed first)))
      (do emit (make (← enclosed second))) := by
  rintro outer others ⟨holds, twinHolds⟩
  have inside := body { outer with pending := "", emitted := [], atStart := false }
    { others with pending := "", emitted := [], atStart := false } ⟨blank ⟨rfl, rfl⟩, blank ⟨rfl, rfl⟩⟩
  rw [emit_enclosed_eq, emit_enclosed_eq]
  generalize first _ = result at inside
  generalize second _ = other at inside
  cases inside with
  | ok met => exact .ok ⟨ends holds met.1 (chunks_enclosed ..), ends twinHolds met.2 (chunks_enclosed ..)⟩
  | error reported => exact .error reported

/-- A condition on builders that is kept while chunks are built. It is told the kind of the line that the
last chunks are of, where alternatives may go with it. -/
structure Upheld (holds : Option TokenKind → Builder → Prop) (branching : Builder → Prop) : Prop where
  blank : ∀ {builder : Builder}, builder.IsBlank → holds none builder
  branchless : ∀ {builder : Builder}, builder.IsBlank → branching builder
  unready : ∀ {ready builder}, holds ready builder → holds none builder
  pushed : ∀ {ready builder built} (text : String), holds ready builder → built.emitted = builder.emitted →
    built.pending = builder.pending ++ text → holds none built
  put : ∀ {builder built : Builder} {chunk : Chunk}, chunk.bodiless = true → holds none builder →
    built.chunks = builder.chunks ++ [chunk] → holds none built
  controlled : ∀ {token make ready} {outer inside built : Builder}, control? token = some make →
    misplaced? ready token.kind = none → holds ready outer → holds none inside →
    built.chunks = outer.chunks ++ [make inside.chunks] → holds (some token.kind) built
  shared : ∀ {name signature ready} {outer inside built : Builder}, holds ready outer → holds none inside →
    built.chunks = outer.chunks ++ [.mixin name signature inside.chunks] → holds none built
  branched : ∀ {token make} {outer inside built : Builder}, control? token = some make →
    token.kind = .whenControl ∨ token.kind = .defaultControl → branching outer → holds none inside →
    built.chunks = outer.chunks ++ [make inside.chunks] → branching built
  chosen : ∀ {subject ready} {outer inside built : Builder}, holds ready outer → branching inside →
    built.chunks = outer.chunks ++ [.caseBlock subject inside.chunks] → holds none built

namespace Upheld

variable {holds : Option TokenKind → Builder → Prop} {branching : Builder → Prop}
  {ready : Option TokenKind}

theorem nothing (upheld : Upheld holds branching) : Goes (holds ready) (holds none) (pure ()) :=
  .pure upheld.unready

theorem push (upheld : Upheld holds branching) (text : String) :
    Goes (holds ready) (holds none) (Builder.push text) :=
  fun builder held => ⟨_, push_eq text builder, upheld.pushed text held rfl rfl⟩

theorem emit (upheld : Upheld holds branching) {chunk : Chunk} (bodiless : chunk.bodiless = true) :
    Goes (holds none) (holds none) (Builder.emit chunk) :=
  fun builder held => ⟨_, emit_eq chunk builder, upheld.put bodiless held (chunks_emit ..)⟩

theorem noteInclude (upheld : Upheld holds branching) (name : String) :
    Goes (holds ready) (holds none) (Builder.noteInclude name) := by
  intro builder held
  refine ⟨_, modify_eq _ builder, ?_⟩
  split
  · exact upheld.unready held
  · exact upheld.pushed "" held rfl String.append_empty.symm

theorem newline (upheld : Upheld holds branching) (layout : Layout) :
    Goes (holds ready) (holds none) (Builder.newline layout) := by
  unfold Builder.newline
  split
  · intro builder held
    refine ⟨_, modify_eq _ builder, ?_⟩
    cases start : builder.atStart with
    | true =>
      exact upheld.pushed "" held rfl (by simp)
    | false =>
      exact upheld.pushed ("\n" ++ String.ofList (List.replicate layout.depth '\t')) held rfl
        (by simp [String.append_assoc])
  · exact upheld.nothing

theorem outputItem (upheld : Upheld holds branching) (fold : Expr → Option Value) (escape : Bool)
    (expr : Expr) : Goes (holds none) (holds none) (Compilation.outputItem fold escape expr) := by
  unfold Compilation.outputItem
  split
  · exact upheld.emit rfl
  · split
    · exact upheld.emit rfl
    · exact upheld.push _

theorem code (upheld : Upheld holds branching) (fold : Expr → Option Value) (expr : Expr) :
    Goes (holds none) (holds none) (Compilation.code fold expr) := by
  unfold Compilation.code
  split
  · exact upheld.emit rfl
  · exact upheld.nothing

theorem attr (upheld : Upheld holds branching) (fold : Expr → Option Value) (escape : Bool) (name : String)
    (value : Option Expr) : Goes (holds none) (holds none) (Compilation.attr fold escape name value) := by
  unfold Compilation.attr
  split
  · exact .bind (upheld.push _) (upheld.push _)
  · split
    · exact upheld.push _
    · exact upheld.emit rfl

theorem opening (upheld : Upheld holds branching) (ownLine : Bool) (layout : Layout) (name : String) :
    Goes (holds none) (holds none) (Compilation.opening ownLine layout name) := by
  unfold Compilation.opening
  split
  · exact upheld.newline layout
  · exact upheld.nothing

theorem closing (upheld : Upheld holds branching) (breaks : Bool) (layout : Layout) (ending : String) :
    Goes (holds none) (holds none) (do
      if breaks then Builder.newline layout
      Builder.push ending) := by
  cases breaks with
  | false => exact upheld.push ending
  | true => exact .bind (upheld.newline layout) (upheld.push ending)

theorem parting (upheld : Upheld holds branching) (layout : Layout) (afterText : Bool) :
    Goes (holds ready) (holds none) (Compilation.parting layout afterText) := by
  unfold Compilation.parting
  split
  · exact upheld.newline layout
  · split
    · exact upheld.push _
    · exact upheld.nothing

end Upheld

/-- Compiling a tree, and compiling it again. -/
def Loom.single (fold : Expr → Option Value) (spans : Span → Span → Prop)
    (faults : StructureError → StructureError → Prop) (holds : Option TokenKind → Builder → Prop)
    (branching : Builder → Prop) : Loom where
  fold := fold
  other := fold
  layouts := (· = ·)
  spans := spans
  texts := (· = ·)
  faults := faults
  fits := Token.Stated
  related ready := Both (holds ready)
  branching := Both branching

theorem Upheld.sound {holds : Option TokenKind → Builder → Prop} {branching : Builder → Prop}
    (upheld : Upheld holds branching) (fold : Expr → Option Value) {spans : Span → Span → Prop}
    {faults : StructureError → StructureError → Prop}
    (reported : ∀ fault {span twin : Span}, spans span twin →
      faults ⟨fault, span.start⟩ ⟨fault, twin.start⟩) :
    (Loom.single fold spans faults holds branching).Sound where
  unready both := ⟨upheld.unready both.1, upheld.unready both.2⟩
  plain _ := rfl
  fault := reported
  stated stated := stated
  inner stated := stated.inner
  depth same := congrArg Layout.depth same.symm
  deeper same := by
    cases same
    rfl
  packed same := by
    cases same
    rfl
  pushed _ := (upheld.push _).woven (upheld.push _)
  noted _ := (upheld.noteInclude _).woven (upheld.noteInclude _)
  begun _ := (upheld.newline _).woven (upheld.newline _)
  opened _ ownLine name := (upheld.opening ownLine _ name).woven (upheld.opening ownLine _ name)
  nested _ ownLine name ending _ _ body :=
    .looking fun _ _ => .bind body (.looking fun _ _ => (upheld.closing _ _ _).woven (upheld.closing _ _ _))
  parted _ _ afterText := (upheld.parting _ afterText).woven (upheld.parting _ afterText)
  item escape expr := (upheld.outputItem fold escape expr).woven (upheld.outputItem fold escape expr)
  coded expr := (upheld.code fold expr).woven (upheld.code fold expr)
  given escape name value := (upheld.attr fold escape name value).woven (upheld.attr fold escape name value)
  put {chunk} lone := by
    have bodiless : chunk.bodiless = true := by cases chunk <;> first | rfl | cases lone
    exact (upheld.emit bodiless).woven (upheld.emit bodiless)
  controlled found placed body :=
    enclosed_both upheld.blank body fun outer inside => upheld.controlled found placed outer inside
  shared _ _ _ _ _ body := enclosed_both upheld.blank body upheld.shared
  branched found branch body :=
    enclosed_both upheld.blank body fun outer inside => upheld.branched found branch outer inside
  chosen _ _ _ _ _ _ body := enclosed_both upheld.branchless body upheld.chosen

/-- What is upheld is true of what a whole tree is built to. -/
theorem Upheld.compile {holds : Option TokenKind → Builder → Prop} {branching : Builder → Prop}
    (upheld : Upheld holds branching) (fold : Expr → Option Value) (pretty : Bool) {root : Token}
    (stated : ∀ line ∈ root.children, line.Stated) {chunks : List Chunk} {includes : List String}
    (compiled : Compilation.compile fold pretty root = .ok (chunks, includes)) :
    ∃ builder, holds none builder ∧ builder.chunks = chunks := by
  have sound := @Upheld.sound _ _ upheld fold (fun _ _ => True) (fun _ _ => True) fun _ _ _ _ => trivial
  have start : Both (holds none) Builder.empty Builder.empty := ⟨upheld.blank ⟨rfl, rfl⟩, upheld.blank ⟨rfl, rfl⟩⟩
  have ends := block_woven sound (rfl : Layout.mk pretty 0 = _) false none root.children
    (Token.Like.refl_all (fun _ => trivial) (fun _ => rfl) _) stated id _ _ start
  change Meets _ _ (block fold _ _ _ _ _) (block fold _ _ _ _ _) at ends
  rw [compile_eq] at compiled
  generalize block fold { pretty, depth := 0 } false none root.children Builder.empty = result
    at ends compiled
  cases ends with
  | ok both =>
    cases compiled
    exact ⟨_, both.1, rfl⟩
  | error => cases compiled

end HtmlTemplate.Building
