import HtmlTemplate.Proofs.Folding.Compilation
import HtmlTemplate.Proofs.Building.Weaving
import HtmlTemplate.Proofs.Folding.Runs
import HtmlTemplate.Template.Source

/-! A template does the same with and without folding, unless a branch for a value loses its body
to folding and a later branch keeps one. -/

namespace HtmlTemplate.Folding

def withoutBody (mixin : Mixin) : Mixin := { mixin with body := [] }

/-- A context without what its mixins run. -/
def withoutBodies (context : Context) : Context :=
  { context with
    frames := context.frames.map fun frame =>
      { frame with mixins := frame.mixins.map fun entry => (entry.1, withoutBody entry.2) } }

/-- Two runs end in the same way with the same output, and in contexts that differ at most in what
mixins run. -/
structure EndAlike (first second : Except Halt Unit × RunState) : Prop where
  result : first.1 = second.1
  sink : first.2.sink = second.2.sink
  context : withoutBodies first.2.context = withoutBodies second.2.context

variable {fold : Expr → Option Value}

theorem EndAlike.symm {first second : Except Halt Unit × RunState} (alike : EndAlike first second) :
    EndAlike second first :=
  ⟨alike.result.symm, alike.sink.symm, alike.context.symm⟩

theorem EndAlike.trans {first second third : Except Halt Unit × RunState}
    (alike : EndAlike first second) (further : EndAlike second third) : EndAlike first third :=
  ⟨alike.result.trans further.result, alike.sink.trans further.sink,
    alike.context.trans further.context⟩

theorem SameMixin.withoutBody {plain folded : Mixin} (same : SameMixin fold plain folded) :
    Folding.withoutBody folded = Folding.withoutBody plain := by
  obtain ⟨names, parameters, -⟩ := same
  cases plain
  cases folded
  cases names
  cases parameters
  rfl

theorem SameMixins.withoutBodies {plain folded : Entries Mixin} (same : SameMixins fold plain folded) :
    folded.map (fun entry => (entry.1, Folding.withoutBody entry.2)) =
      plain.map fun entry => (entry.1, Folding.withoutBody entry.2) := by
  induction same with
  | none => rfl
  | more same further step => rw [List.map_cons, List.map_cons, step, same.withoutBody]

theorem Twins.withoutBodies {context twin : Context} (twins : Twins fold context twin) :
    Folding.withoutBodies twin = Folding.withoutBodies context := by
  obtain ⟨base, same, -⟩ := twins
  unfold Folding.withoutBodies Context.withMixins
  simp only [List.mapIdx_eq_zipIdx_map, List.map_map, Function.comp_def, (same _).withoutBodies]

theorem Ahead.endAlike {result : Except Halt Unit} {plain folded : RunState}
    (level : Level fold plain folded) : EndAlike (result, plain) (result, folded) := by
  refine ⟨rfl, ?_, level.twins.withoutBodies.symm⟩
  have wrote := level.wrote
  have endless := level.endless
  have other := level.other
  rw [String.append_empty] at wrote
  generalize plain.sink = sink at wrote endless
  generalize folded.sink = twin at wrote other
  obtain ⟨text, limit, broken⟩ := sink
  obtain ⟨twinText, twinLimit, twinBroken⟩ := twin
  cases endless
  cases other
  subst_vars
  rfl

/-! Runs of templates. -/

theorem run_alike (knows : Knows fold) (bound : Nat) : AllAlike fold (Render.run bound) := by
  induction bound with
  | zero => exact fun _ _ _ => .throw _
  | succ bound step =>
    exact fun body folded folds => runChunks_folds knows step bound body folds fun _ => ⟨rfl, rfl⟩

/-- A template and what it is folded into, from contexts that are the same but for the bodies of
mixins. -/
theorem run_level (knows : Knows fold) {plain folded : Template}
    (lenient : plain.runOptions = Folding.lenient) (same : folded.runOptions = Folding.lenient)
    (folds : Folds fold true "" plain.chunks folded.chunks) (bound : Nat) {context twin : Context}
    (twins : Twins fold context twin) {sink : Sink} (endless : sink.Endless) :
    Rules.Alike (· = ·) (Level fold) (plain.run bound context sink) (folded.run bound twin sink) := by
  have forgets : Twins fold context.forgetLast twin.forgetLast :=
    twins.change (fun _ _ => rfl) fun _ => calm_kept.forgotten _
  unfold Template.run
  rw [lenient, same]
  exact run_alike knows bound _ _ folds _ _ ⟨forgets, (String.append_empty ..).symm, endless, endless⟩

/-! Templates of sources. -/

/-- A template without the bodies that count as none once they have been folded. -/
def hollowed (template : Template) : Template :=
  { template with chunks := hollow Expr.constant? template.chunks }

/-- Folding only changes the chunks of a template, as if it were done afterwards. -/
theorem ofSource_refold (source : List Char) :
    match Template.ofSourceWith unfolded { pretty := false, stopOnError := false } source with
    | .error error =>
      Template.ofSource { pretty := false, stopOnError := false } source = .error error
    | .ok plain =>
      Template.ofSource { pretty := false, stopOnError := false } source =
          .ok { plain with chunks := refold Expr.constant? plain.chunks } ∧
        plain.runOptions = lenient ∧ Linked Expr.constant? true plain.chunks := by
  unfold Template.ofSource Template.ofSourceWith
  cases read : Token.ofSource source with
  | error error => rfl
  | ok root =>
    have folds := compile_refold Expr.constant? (Token.ofSource_stated read)
    dsimp only
    generalize Compilation.compile unfolded false root = plain at folds
    cases plain with
    | error error =>
      dsimp only at folds ⊢
      rw [folds]
    | ok compiled =>
      obtain ⟨same, linked⟩ := folds
      dsimp only
      rw [same]
      exact ⟨rfl, rfl, linked⟩

/-- A folded template goes as the one without the bodies that it has lost. -/
theorem folded_level {plain folded : Template} (options : plain.runOptions = lenient)
    (same : folded = { plain with chunks := refold Expr.constant? plain.chunks })
    (linked : Linked Expr.constant? true plain.chunks) (bound : Nat) {context : Context}
    (calm : Calm context) {sink : Sink} (endless : sink.Endless) :
    Rules.Alike (· = ·) (Level Expr.constant?) ((hollowed plain).run bound context sink)
      (folded.run bound context sink) := by
  subst same
  have knows : Knows Expr.constant? := fun _ _ known => execValue?_of_constant? known
  have loose : (hollowed plain).runOptions = lenient := options
  have other : { plain with chunks := refold Expr.constant? plain.chunks }.runOptions = lenient := options
  have folds := folds_hollow Expr.constant? "" plain.chunks linked
  exact run_level knows loose other folds bound (.refl calm) endless

theorem endAlike_of_level {first second : Except Halt Unit × RunState}
    (alike : Rules.Alike (· = ·) (Level fold) first second) :
    EndAlike first second ∧ Twins fold first.2.context second.2.context := by
  cases alike with
  | ok same level =>
    cases same
    exact ⟨level.endAlike, level.twins⟩
  | error level => exact ⟨level.endAlike, level.twins⟩

theorem hollowed_of_solid {plain : Template} (whole : solid Expr.constant? plain.chunks = true) :
    hollowed plain = plain := by
  unfold hollowed
  rw [hollow_of_solid Expr.constant? whole]

/-- When the host takes the reports, no report waits from before and nothing is included, a template does the
same with and without folding just when it does the same without the bodies that folding leaves nothing of
before branches that keep theirs. A template without such bodies always does, and its mixins are
the same but for folding. -/
theorem folding_unseen_iff {source : List Char} {template : Template}
    (compiled : Template.ofSource { pretty := false, stopOnError := false } source = .ok template) :
    ∃ plain, Template.ofSourceWith unfolded { pretty := false, stopOnError := false } source = .ok plain ∧
      ∀ (bound : Nat) (context : Context) (sink : Sink), Calm context → sink.Endless →
        (EndAlike (template.run bound context sink) (plain.run bound context sink) ↔
          EndAlike ((hollowed plain).run bound context sink) (plain.run bound context sink)) ∧
        (solid Expr.constant? plain.chunks = true →
          EndAlike (template.run bound context sink) (plain.run bound context sink) ∧
            Twins Expr.constant? (plain.run bound context sink).2.context
              (template.run bound context sink).2.context) := by
  have folds := ofSource_refold source
  rw [compiled] at folds
  generalize Template.ofSourceWith unfolded { pretty := false, stopOnError := false } source = unfoldedTemplate
    at folds
  cases unfoldedTemplate with
  | error error => cases folds
  | ok plain =>
    obtain ⟨same, options, linked⟩ := folds
    have same := Except.ok.inj same
    refine ⟨plain, rfl, fun bound context sink calm endless => ?_⟩
    have level := folded_level options same linked bound calm endless
    obtain ⟨alike, twins⟩ := endAlike_of_level level
    refine ⟨⟨alike.trans, alike.symm.trans⟩, fun whole => ?_⟩
    rw [hollowed_of_solid whole] at alike twins
    exact ⟨alike.symm, twins⟩

/-- A context whose host takes the reports. -/
def heard : Context := { Context.new with reports := { Reports.none with taken := some [] } }

theorem heard_calm : Calm heard := ⟨rfl, rfl, fun _ => rfl⟩

theorem unlimited_endless : Sink.unlimited.Endless := ⟨rfl, rfl⟩

/-- A paragraph with a value that is known already. -/
def sum : List Char := "p= 1 + 2".toList

theorem sum_evaluated :
    (Template.ofSourceWith unfolded { pretty := false, stopOnError := false } sum).toOption.map
        (fun plain => solid Expr.constant? plain.chunks) = some true ∧
      (Template.ofSource { pretty := false, stopOnError := false } sum).toOption.isSome = true := by
  decide +kernel

theorem sum_unseen : ∃ template plain,
    Template.ofSource { pretty := false, stopOnError := false } sum = .ok template ∧
      Template.ofSourceWith unfolded { pretty := false, stopOnError := false } sum = .ok plain ∧
      Calm heard ∧ Sink.unlimited.Endless ∧ solid Expr.constant? plain.chunks = true ∧
      EndAlike (template.run 1 heard .unlimited) (plain.run 1 heard .unlimited) := by
  cases compiled : Template.ofSource { pretty := false, stopOnError := false } sum with
  | error error =>
    have compiles := sum_evaluated.2
    rw [compiled] at compiles
    cases compiles
  | ok template =>
    obtain ⟨plain, same, ends⟩ := folding_unseen_iff compiled
    have whole := sum_evaluated.1
    rw [same] at whole
    have whole : solid Expr.constant? plain.chunks = true := Option.some.inj whole
    obtain ⟨-, unseen⟩ := ends 1 heard .unlimited heard_calm unlimited_endless
    exact ⟨template, plain, rfl, same, heard_calm, unlimited_endless, whole, (unseen whole).1⟩

/-- Both conditions are needed: a report that waits is written after the first chunk, and a chunk
that does not fit is not written at all. With folding the first chunk is longer. -/
example :
    let waiting : Context := { heard with reports := { heard.reports with pending := ["late"] } }
    let texts (context : Context) (sink : Sink) (template : Except TemplateError Template) :=
      template.toOption.map fun template => (template.run 1 context sink).2.sink.text
    let folded := Template.ofSource { pretty := false, stopOnError := false } sum
    let plain := Template.ofSourceWith unfolded { pretty := false, stopOnError := false } sum
    texts waiting .unlimited folded = some "<p>3</p><!-- late -->" ∧
      texts waiting .unlimited plain = some "<p><!-- late -->3</p>" ∧
      texts heard (.ofLimit (some 5)) folded = some "" ∧
      texts heard (.ofLimit (some 5)) plain = some "<p>3" := by
  decide +kernel

/-- A choice whose first branch only has a constant to evaluate. -/
def emptied : List Char := "case 1\n  when 1\n    - 5\n  when 2\n    | two".toList

theorem emptied_evaluated :
    (Template.ofSource { pretty := false, stopOnError := false } emptied).toOption.map
        (fun template => (template.run 1 heard .unlimited).2.sink.text) = some "two" ∧
      (Template.ofSourceWith unfolded { pretty := false, stopOnError := false } emptied).toOption.map
        (fun plain => (plain.run 1 heard .unlimited).2.sink.text) = some "" := by
  decide +kernel

/-- Folding leaves nothing of the first branch, and so the second one is run. -/
theorem emptied_goes_on : ∃ template plain,
    Template.ofSource { pretty := false, stopOnError := false } emptied = .ok template ∧
      Template.ofSourceWith unfolded { pretty := false, stopOnError := false } emptied = .ok plain ∧
      Calm heard ∧ Sink.unlimited.Endless ∧
      ¬ EndAlike (template.run 1 heard .unlimited) (plain.run 1 heard .unlimited) := by
  obtain ⟨writes, still⟩ := emptied_evaluated
  cases compiled : Template.ofSource { pretty := false, stopOnError := false } emptied with
  | error error =>
    rw [compiled] at writes
    cases writes
  | ok template =>
    cases same : Template.ofSourceWith unfolded { pretty := false, stopOnError := false } emptied with
    | error error =>
      rw [same] at still
      cases still
    | ok plain =>
      rw [compiled] at writes
      rw [same] at still
      have writes : (template.run 1 heard .unlimited).2.sink.text = "two" := Option.some.inj writes
      have still : (plain.run 1 heard .unlimited).2.sink.text = "" := Option.some.inj still
      refine ⟨template, plain, rfl, rfl, heard_calm, unlimited_endless, fun alike => ?_⟩
      have text := congrArg Sink.text alike.sink
      rw [writes, still] at text
      exact absurd text (by decide)

end HtmlTemplate.Folding
