import HtmlTemplate.Proofs.Context.Bodies
import HtmlTemplate.Proofs.Folding.Abreast
import HtmlTemplate.Proofs.Rules.Composition

/-! A run of some chunks and a run of the same chunks without the line breaks and tabs in their texts.
They write the same but for line breaks and tabs. -/

namespace HtmlTemplate

namespace Spacing

open Folding Render Rules

/-- A text without its line breaks and tabs. -/
def squeeze (text : String) : String :=
  String.ofList (text.toList.filter fun char => char != '\n' && char != '\t')

theorem squeeze_append (text more : String) : squeeze (text ++ more) = squeeze text ++ squeeze more := by
  unfold squeeze
  rw [String.toList_append, List.filter_append, String.ofList_append]

theorem squeeze_squeeze (text : String) : squeeze (squeeze text) = squeeze text := by
  unfold squeeze
  rw [String.toList_ofList, List.filter_filter]
  simp only [Bool.and_self]

/-- Chunks without the line breaks and tabs in their texts. -/
abbrev squeezeAll (chunks : List Chunk) : List Chunk := Chunk.retextAll squeeze chunks

/-- The second run has written the same as the first one but for line breaks and tabs, and the bodies
of its mixins are without these. -/
structure Near (state twin : RunState) : Prop where
  context : twin.context = state.context.mapBodies squeezeAll
  calm : Calm state.context
  wrote : squeeze twin.sink.text = squeeze state.sink.text
  endless : state.sink.Endless
  other : twin.sink.Endless

namespace Near

variable {state twin : RunState}

theorem remember (near : Near state twin) (event : Event) : Near (state.remember event) twin :=
  ⟨near.context, near.calm, near.wrote, near.endless, near.other⟩

theorem remembered (near : Near state twin) (event : Event) : Near state (twin.remember event) :=
  ⟨near.context, near.calm, near.wrote, near.endless, near.other⟩

theorem withContext (near : Near state twin) {context : Context} (calm : Calm context) :
    Near { state with context } { twin with context := context.mapBodies squeezeAll } :=
  ⟨rfl, calm, near.wrote, near.endless, near.other⟩

theorem calmTwin (near : Near state twin) : Calm twin.context := by
  rw [near.context]
  exact near.calm.congr rfl rfl

/-- Texts that are the same but for line breaks and tabs are written. -/
theorem write (near : Near state twin) {text other : String} (same : squeeze other = squeeze text) :
    Alike (· = ·) Near (Render.write text state) (Render.write other twin) := by
  rw [write_eq, write_eq, near.endless.write, near.other.write]
  refine .ok rfl ⟨near.context, near.calm, ?_, ⟨near.endless.limit, near.endless.whole⟩,
    ⟨near.other.limit, near.other.whole⟩⟩
  change squeeze (twin.sink.text ++ other) = squeeze (state.sink.text ++ text)
  rw [squeeze_append, squeeze_append, near.wrote, same]

/-- Nothing is written. -/
theorem write_empty (near : Near state twin) :
    ∃ later, Render.write "" state = (.ok (), later) ∧ Near later twin := by
  rw [write_eq, near.endless.write]
  refine ⟨_, rfl, near.context, near.calm, ?_, ⟨near.endless.limit, near.endless.whole⟩, near.other⟩
  change squeeze twin.sink.text = squeeze (state.sink.text ++ "")
  rw [String.append_empty]
  exact near.wrote

end Near

theorem enter_calm (mixin : Mixin) (arguments : List Value) {context : Context} (calm : Calm context) :
    Calm (mixin.enter arguments context).2 := by
  have bound := (bindParameters_acts calm_kept mixin.name mixin.parameters arguments context.pushScope
    (calm.congr rfl rfl)).1
  unfold Mixin.enter
  generalize Mixin.bindParameters mixin.name mixin.parameters arguments context.pushScope = result at bound
  obtain ⟨complete, after⟩ := result
  cases complete with
  | true => exact bound
  | false => exact bound.popScope

theorem near_abreast : Abreast Near fun mixin other => other = mixin.mapBody squeezeAll where
  acts {_ action} blind acts state twin near := by
    have same : action (state.context.mapBodies squeezeAll) = _ := blind.ignores state.context
    rw [inContext_eq, inContext_eq, near.context, same]
    exact .ok rfl (near.withContext (acts state.context near.calm).1)
  changes {change} blind keeps state twin near := by
    have same : change (state.context.mapBodies squeezeAll) = _ := blind.commutes state.context
    change Alike _ _ (.ok (), { state with context := change state.context })
      (.ok (), { twin with context := change twin.context })
    rw [near.context, same]
    exact .ok rfl (near.withContext (keeps state.context near.calm).1)
  notes event _ _ near := .ok rfl ((near.remember event).remembered event)
  writes text _ _ near := near.write rfl
  escapes near := by
    rw [near.context]
    rfl
  opens state twin near := by
    change Alike _ _ (.ok (), { state with context := state.context.pushScope })
      (.ok (), { twin with context := twin.context.pushScope })
    rw [near.context, Context.pushScope_mapBodies]
    exact .ok rfl (near.withContext (near.calm.congr rfl rfl))
  closes near := by
    rw [near.context, Context.popScope_mapBodies]
    exact near.withContext near.calm.popScope
  finds {state _} near name := by
    rw [near.context, Context.mixin?_mapBodies]
    cases state.context.mixin? name with
    | none => exact .none
    | some mixin => exact .some rfl
  enters {mixin _} same arguments state twin near := by
    subst same
    rw [inContext_eq, inContext_eq, near.context, enter_ignores]
    exact .ok rfl (near.withContext (enter_calm mixin arguments near.calm))

/-! Whole runs. -/

variable {options : RunOptions} {again twin : RunOptions → List Chunk → RunM Unit}

theorem flushReports_near (goesOn : options.stopOnError = false) :
    Pairs Near (· = ·) Near (flushReports options) (flushReports lenient) := by
  have same : flushReports options = flushReports lenient := by
    unfold flushReports
    rw [goesOn]
    rfl
  intro state twin near
  rw [same, flushReports_calm near.calm, flushReports_calm near.calmTwin]
  exact .ok rfl near

/-- Where there is no template to include, a comment is written, after nothing if it is indented. -/
theorem runInclude_near (name : String) (depth : Nat) :
    Pairs Near (· = ·) Near (runInclude again options name depth)
      (runInclude twin lenient name depth) := by
  intro state other near
  rw [runInclude_missing again options depth (near.calm.alone name),
    runInclude_missing twin lenient depth (near.calmTwin.alone name)]
  have plain : missed lenient name depth = write (comment ("fail to include " ++ name)) := rfl
  rw [plain]
  unfold missed
  split
  · obtain ⟨later, wrote, near⟩ := near.write_empty
    rw [bind_eq, wrote]
    exact near.write rfl
  · exact near.write rfl

theorem near_rewrites (goesOn : options.stopOnError = false)
    (alike : ∀ body, Pairs Near (· = ·) Near (again options body) (twin lenient (squeezeAll body)))
    (bound : Nat) :
    Rewrites squeeze options lenient (Pairs Near (· = ·) Near) (fun _ => True) True again twin bound bound where
  pure _ := .pure rfl
  bind pairs goesOn := pairs.bind_same goesOn
  began := near_abreast.notes .began
  entered := near_abreast.notes .entered
  written := near_abreast.writes
  escaping := near_abreast.escaping
  valued _ := near_abreast.acts (fun _ => execValue?_ignores (mixins_unseen _) _)
    (execValue?_acts calm_kept _)
  held _ := near_abreast.holds _
  inScope := near_abreast.inScope
  looped _ item key hasElse _ _ pairs := near_abreast.loop item key _ hasElse pairs
  texted text _ _ near := near.write (squeeze_squeeze text)
  flushed := flushReports_near goesOn
  repeated _ _ _ pairs := near_abreast.whileStep _ pairs bound
  defined name {signature body} _ _ state twin near := by
    change Alike _ _ (.ok (), { state with context := define name signature body state.context })
      (.ok (), { twin with context := define name signature (squeezeAll body) twin.context })
    rw [near.context, Context.define_mapBodies]
    exact .ok rfl (near.withContext (define_keeps calm_kept name signature body state.context near.calm).1)
  called name {arguments} _ := by
    have bodies (body other : List Chunk) (same : other = squeezeAll body) :
        Pairs Near (· = ·) Near (again options body) (twin lenient other) :=
      same ▸ alike body
    refine near_abreast.mixinCall bodies ?_ name arguments
    rintro mixin _ rfl
    rfl
  included _ name depth := runInclude_near name depth

/-- A run of chunks, and of the chunks without line breaks and tabs. -/
theorem run_near (goesOn : options.stopOnError = false) (bound : Nat) (chunks : List Chunk) :
    Pairs Near (· = ·) Near (Render.run bound options chunks)
      (Render.run bound lenient (squeezeAll chunks)) := by
  induction bound generalizing chunks with
  | zero => exact .throw _
  | succ bound step =>
    exact runChunks_rewrites (near_rewrites goesOn step bound) .closed chunks (.everything chunks)

end Spacing

end HtmlTemplate
