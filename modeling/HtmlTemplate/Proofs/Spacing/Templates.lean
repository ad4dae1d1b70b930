import HtmlTemplate.Proofs.Folding.Templates
import HtmlTemplate.Proofs.Spacing.Compilation

/-! Pretty output differs from plain output in line breaks and tabs alone. -/

namespace HtmlTemplate.Spacing

open Folding

/-- Two runs end in the same way with the same output but for line breaks and tabs, and in contexts
that differ at most in what mixins run. -/
structure SpacedAlike (first second : Except Halt Unit × RunState) : Prop where
  result : first.1 = second.1
  text : squeeze first.2.sink.text = squeeze second.2.sink.text
  context : withoutBodies first.2.context = withoutBodies second.2.context

namespace SpacedAlike

variable {first second third : Except Halt Unit × RunState}

theorem symm (alike : SpacedAlike first second) : SpacedAlike second first :=
  ⟨alike.result.symm, alike.text.symm, alike.context.symm⟩

theorem trans (alike : SpacedAlike first second) (further : SpacedAlike second third) :
    SpacedAlike first third :=
  ⟨alike.result.trans further.result, alike.text.trans further.text, alike.context.trans further.context⟩

end SpacedAlike

theorem spacedAlike_of_endAlike {first second : Except Halt Unit × RunState}
    (alike : EndAlike first second) : SpacedAlike first second := by
  refine ⟨alike.result, ?_, alike.context⟩
  rw [alike.sink]

theorem withoutBodies_mapBodies (change : List Chunk → List Chunk) (context : Context) :
    withoutBodies (context.mapBodies change) = withoutBodies context :=
  Context.mapBodies_mapBodies change (fun _ => []) context

theorem spacedAlike_of_near {first second : Except Halt Unit × RunState}
    (alike : Rules.Alike (· = ·) Near first second) : SpacedAlike first second := by
  have near := alike.related
  refine ⟨alike.result, near.wrote.symm, ?_⟩
  rw [near.context, withoutBodies_mapBodies]

theorem unfolded_known : Knows unfolded := nofun

/-- A run of chunks, and of what is left of them without line breaks and tabs when texts that come
together are joined. -/
theorem run_joined {options : RunOptions} (goesOn : options.stopOnError = false) {chunks : List Chunk}
    (linked : Linked unfolded true (squeezeAll chunks)) (whole : solid unfolded (squeezeAll chunks) = true)
    (bound : Nat) {context : Context} (calm : Calm context) {sink : Sink} (endless : sink.Endless) :
    SpacedAlike (Render.run bound options chunks { context, sink })
      (Render.run bound lenient (refold unfolded (squeezeAll chunks))
        { context := context.mapBodies squeezeAll, sink }) := by
  have near : Near { context, sink } { context := context.mapBodies squeezeAll, sink } :=
    ⟨rfl, calm, rfl, endless, endless⟩
  have folds := folds_hollow unfolded "" (squeezeAll chunks) linked
  rw [hollow_of_solid unfolded whole] at folds
  have twins : Twins unfolded (context.mapBodies squeezeAll) (context.mapBodies squeezeAll) :=
    .refl near.calmTwin
  have level : Level unfolded { context := context.mapBodies squeezeAll, sink }
      { context := context.mapBodies squeezeAll, sink } :=
    ⟨twins, (String.append_empty ..).symm, endless, endless⟩
  have squeezed := spacedAlike_of_near (run_near goesOn bound chunks _ _ near)
  obtain ⟨joined, -⟩ := endAlike_of_level (run_alike unfolded_known bound _ _ folds _ _ level)
  exact squeezed.trans (spacedAlike_of_endAlike joined)

/-- When the host takes the reports, no report waits from before and nothing is included, a template without a
choice by value puts out the same with and without pretty output, but for line breaks and tabs, and it ends
in the same way with the same reports and the same bindings. -/
theorem pretty_spaces {source : List Char} {plain : Template}
    (caseless : ∀ root, Token.ofSource source = .ok root → root.mentions .caseControl = false)
    (compiled : Template.ofSource { pretty := false, stopOnError := false } source = .ok plain) :
    ∃ pretty, Template.ofSource { pretty := true, stopOnError := false } source = .ok pretty ∧
      ∀ (bound : Nat) (context : Context) (sink : Sink), Calm context → sink.Endless →
        SpacedAlike (pretty.run bound context sink) (plain.run bound context sink) := by
  unfold Template.ofSource Template.ofSourceWith at compiled ⊢
  cases read : Token.ofSource source with
  | error error =>
    rw [read] at compiled
    cases compiled
  | ok root =>
    rw [read] at compiled
    dsimp only at compiled ⊢
    have stated := Token.ofSource_stated read
    have none := caseless root read
    rw [Token.mentions_eq, Bool.or_eq_false_iff, List.any_eq_false] at none
    have lines : ∀ line ∈ root.children, Caseless line := fun line member =>
      ⟨stated line member, Bool.eq_false_iff.mpr (none.2 line member)⟩
    cases built : Compilation.compile Expr.constant? false root with
    | error error =>
      rw [built] at compiled
      cases compiled
    | ok result =>
      obtain ⟨chunks, includes⟩ := result
      rw [built] at compiled
      cases compiled
      obtain ⟨others, same, joined, ⟨linked, whole⟩, linkedPlain, wholePlain⟩ :=
        compile_even Expr.constant? lines built
      rw [same]
      refine ⟨_, rfl, fun bound context sink calm endless => ?_⟩
      have forgotten : Calm context.forgetLast := (calm_kept.forgotten context calm).1
      have goesOn : ({ pretty := true, stopOnError := false } : RunOptions).stopOnError = false := rfl
      have plainGoesOn : ({ pretty := false, stopOnError := false } : RunOptions).stopOnError = false :=
        rfl
      have first := run_joined goesOn linked whole bound forgotten endless
      have second := run_joined plainGoesOn linkedPlain wholePlain bound forgotten endless
      rw [joined] at first
      exact first.trans second.symm

/-- A list in which a name is unknown. -/
def listing : List Char := "ul\n  each x in [1, 2]\n    li= x\n  else\n    li none\nif a\n  | b".toList

theorem listing_caseless :
    (Token.ofSource listing).toOption.map (Token.mentions .caseControl) = some false := by
  unfold listing
  rw [String.toList_ofList]
  decide +kernel

theorem listing_compiles :
    (Template.ofSource { pretty := false, stopOnError := false } listing).toOption.isSome = true := by
  unfold listing
  rw [String.toList_ofList]
  decide +kernel

theorem listing_spaced : ∃ pretty plain,
    Template.ofSource { pretty := true, stopOnError := false } listing = .ok pretty ∧
      Template.ofSource { pretty := false, stopOnError := false } listing = .ok plain ∧
      (∀ root, Token.ofSource listing = .ok root → root.mentions .caseControl = false) ∧
      Calm heard ∧ Sink.unlimited.Endless ∧
      SpacedAlike (pretty.run 3 heard .unlimited) (plain.run 3 heard .unlimited) := by
  have caseless : ∀ root, Token.ofSource listing = .ok root → root.mentions .caseControl = false := by
    intro root read
    have without := listing_caseless
    rw [read] at without
    exact Option.some.inj without
  cases compiled : Template.ofSource { pretty := false, stopOnError := false } listing with
  | error error =>
    have compiles := listing_compiles
    rw [compiled] at compiles
    cases compiles
  | ok plain =>
    obtain ⟨pretty, same, alike⟩ := pretty_spaces caseless compiled
    exact ⟨pretty, plain, same, rfl, caseless, heard_calm, unlimited_endless,
      alike 3 heard .unlimited heard_calm unlimited_endless⟩

/-- A loop, before which pretty output has a line break. -/
def looped : List Char := "each x in [1]\n  | #\x7bx\x7d".toList

/-- The host takes the reports after one that waits. -/
def belated : Context :=
  let waiting := Context.new.report "late"
  { waiting with reports := { waiting.reports with taken := some [] } }

/-- A report that waits is written after the first chunk, which may be a line break. -/
theorem report_moves :
    let squeezed? (pretty : Bool) :=
      (Template.ofSource { pretty, stopOnError := false } looped).toOption.map fun template =>
        squeeze (template.run 3 belated .unlimited).2.sink.text
    belated.reports.taken.isSome = true ∧ (∀ name, belated.loader name = .missing) ∧
      (Token.ofSource looped).toOption.map (Token.mentions .caseControl) = some false ∧
      squeezed? false = some "1<!-- Context error: late -->" ∧
      squeezed? true = some "<!-- Context error: late -->1" := by
  intro squeezed?
  simp only [squeezed?]
  refine ⟨rfl, fun _ => rfl, ?_⟩
  unfold looped
  rw [String.toList_ofList]
  decide +kernel

/-- What pretty output adds, and why choices by value are left out: a branch with nothing but a line break
in it has a body. -/
example :
    let texts (source : String) (pretty : Bool) :=
      (Template.ofSource { pretty, stopOnError := false } source.toList).toOption.map fun template =>
        (template.run 3 heard .unlimited).2.sink.text
    let choice := "case 1\n  when 1\n    |\n  when 2\n    | two"
    texts (String.ofList listing) false = some "<ul><li>1</li><li>2</li></ul>" ∧
      texts (String.ofList listing) true = some "<ul>\n\t<li>1</li>\n\t<li>2</li>\n</ul>" ∧
      texts choice false = some "two" ∧ texts choice true = some "\n" := by
  intro texts choice
  simp only [texts, choice, String.toList_ofList]
  unfold listing
  rw [String.toList_ofList, String.toList_ofList]
  decide +kernel

end HtmlTemplate.Spacing
