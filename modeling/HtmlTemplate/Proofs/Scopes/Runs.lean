import HtmlTemplate.Proofs.Context.Frames
import HtmlTemplate.Proofs.Rules.Evaluation
import HtmlTemplate.Proofs.Rules.Handling
import HtmlTemplate.Proofs.Rules.Running

/-! What is in each of the open scopes, apart from what the names there stand for. Evaluation adds
to the innermost scope alone: a name is assigned where it has been found, and declared innermost. -/

namespace HtmlTemplate

theorem Entries.contains_insert {α : Type} {name : String} {entries : Entries α}
    (known : entries.contains name = true) (value : α) (other : String) :
    (entries.insert name value).contains other = entries.contains other := by
  unfold Entries.contains
  by_cases same : other = name
  · subst other
    rw [lookup_insert_self]
    exact known.symm
  · rw [lookup_insert_of_ne same]

/-- The names and the mixins of a scope, and how many values it keeps without a name. -/
structure Shape where
  names : String → Bool
  mixins : String → Bool
  temps : Nat

def Frame.shape (frame : Frame) : Shape where
  names name := frame.bindings.contains name
  mixins name := frame.mixins.contains name
  temps := frame.temps.length

namespace Context

def shapes (context : Context) : List Shape := context.frames.map Frame.shape

theorem length_shapes (context : Context) : context.shapes.length = context.depth :=
  List.length_map ..

theorem shapes_congr {before after : Context} (same : after.frames = before.frames) :
    after.shapes = before.shapes := by
  rw [shapes, same, shapes]

theorem shapes_modifyFrame {context : Context} {index : Nat} {change : Frame → Frame}
    (same : ∀ scope, context.frames[index]? = some scope → (change scope).shape = scope.shape) :
    (context.modifyFrame index change).shapes = context.shapes := by
  apply List.ext_getElem?
  intro frame
  rw [shapes, shapes, List.getElem?_map, List.getElem?_map, getElem?_modifyFrame, Option.map_map]
  cases found : context.frames[frame]? with
  | none => rfl
  | some scope =>
    simp only [Option.map_some, Function.comp_apply]
    split
    · rename_i here
      subst here
      rw [same scope found]
    · rfl

theorem shapes_store {context : Context} {frame : Nat} {name : String}
    (known : (context.binding? frame name).isSome = true) (binding : Binding) :
    (context.store frame name binding).shapes = context.shapes := by
  apply shapes_modifyFrame
  intro scope found
  have known : scope.bindings.contains name = true := by
    rw [binding?_eq, found] at known
    exact known
  simp only [Frame.shape, Entries.contains_insert known]

/-- A value is put only where there has been one. -/
theorem shapes_setRoot (context : Context) (root : Root) (value : Value) :
    (context.setRoot root value).shapes = context.shapes := by
  cases root with
  | temp frame index =>
    apply shapes_modifyFrame
    intro scope _
    simp only [Frame.shape, List.length_set]
  | slot frame name =>
    unfold setRoot
    dsimp only
    split
    · rename_i found
      exact shapes_store (by rw [found]; rfl) _
    · rfl
    · rfl

theorem shapes_write? {context changed : Context} {place : Place} {value : Value}
    (done : context.write? place value = some changed) : changed.shapes = context.shapes := by
  obtain ⟨root, replaced, rfl⟩ := setRoot_of_write? done
  exact shapes_setRoot ..

/-- Meanwhile no scope has been opened or closed for good, and nothing has been added to the
scopes around the innermost one. -/
structure Steady (before after : Context) : Prop where
  depth : after.depth = before.depth
  outer : after.shapes.dropLast = before.shapes.dropLast

namespace Steady

theorem growth : Rules.Growth Steady where
  refl _ := ⟨rfl, rfl⟩
  trans first second := ⟨second.depth.trans first.depth, second.outer.trans first.outer⟩

theorem of_shapes {before after : Context} (same : after.shapes = before.shapes) :
    before.Steady after :=
  ⟨by rw [← length_shapes, same, length_shapes], by rw [same]⟩

theorem modifyFrame {context : Context} {index : Nat} (inner : context.depth ≤ index + 1)
    (change : Frame → Frame) : context.Steady (context.modifyFrame index change) := by
  refine ⟨depth_modifyFrame .., ?_⟩
  apply List.ext_getElem?
  intro frame
  rw [List.getElem?_dropLast, List.getElem?_dropLast, length_shapes, length_shapes,
    depth_modifyFrame]
  split
  · rename_i outer
    have elsewhere : index ≠ frame := by omega
    rw [shapes, shapes, List.getElem?_map, List.getElem?_map, getElem?_modifyFrame, Option.map_map]
    cases context.frames[frame]? with
    | none => rfl
    | some scope => simp [elsewhere]
  · rfl

theorem innermost (context : Context) (change : Frame → Frame) :
    context.Steady (context.modifyFrame context.current change) := by
  apply modifyFrame
  rw [current]
  omega

/-- A scope around the innermost one still has the names it had. -/
theorem known {before after : Context} (steady : before.Steady after) {frame : Nat}
    (outer : frame + 1 < before.depth) (name : String) :
    (after.binding? frame name).isSome = (before.binding? frame name).isSome := by
  have names (context : Context) : (context.binding? frame name).isSome =
      (context.shapes[frame]?).any fun shape => shape.names name := by
    rw [binding?_eq, shapes, List.getElem?_map]
    cases context.frames[frame]? <;> rfl
  have shape (context : Context) (same : context.depth = before.depth) :
      context.shapes[frame]? = context.shapes.dropLast[frame]? := by
    rw [List.getElem?_dropLast, length_shapes, if_pos (by omega)]
  rw [names, names, shape after steady.depth, shape before rfl, steady.outer]

end Steady

/-- A slot is in the innermost scope, or in a scope that knows its name. -/
def Placed (context : Context) : Handle → Prop
  | .slot frame name => context.depth ≤ frame + 1 ∨ (context.binding? frame name).isSome = true
  | _ => True

/-- Binding a name that has been found where it was found. -/
theorem Placed.store {start context : Context} {frame : Nat} {name : String}
    (placed : start.Placed (.slot frame name)) (steady : start.Steady context) (binding : Binding) :
    start.Steady (context.store frame name binding) := by
  apply Steady.growth.trans steady
  rcases Nat.lt_or_ge (frame + 1) start.depth with outer | inner
  · have known := placed.resolve_left (by omega)
    rw [← steady.known outer] at known
    exact .of_shapes (shapes_store known binding)
  · exact .modifyFrame (by rw [steady.depth]; exact inner) _

/-! Evaluation. -/

theorem placed_of_known {start context : Context} (steady : start.Steady context) {frame : Nat}
    {name : String} (known : (context.binding? frame name).isSome = true) :
    start.Placed (.slot frame name) := by
  rcases Nat.lt_or_ge (frame + 1) start.depth with outer | inner
  · exact .inr ((steady.known outer name).symm.trans known)
  · exact .inl inner

theorem known_of_find? {context : Context} {name : String} {frame : Nat}
    (found : context.find? name = some frame) : (context.binding? frame name).isSome = true := by
  have all (frames : List Frame) : ∀ frame, findIn name frames = some frame →
      ((frames[frame]?).bind fun scope => scope.bindings.lookup name).isSome = true := by
    induction frames with
    | nil => exact nofun
    | cons scope rest step =>
      intro frame found
      unfold findIn at found
      split at found
      · rename_i index inside
        cases found
        exact step index inside
      · split at found
        · rename_i here
          cases found
          exact here
        · cases found
  exact all context.frames frame found

theorem placed_member (start context : Context) (base : Handle) (target : Bool) (member : Member) :
    start.Placed (Member.ofHandle context base target member) := by
  cases found : Member.ofHandle context base target member with
  | slot frame name => exact absurd found (Rules.member_ne_slot context base target member frame name)
  | _ => trivial

/-- Putting a value in the place of another one changes no shape. -/
theorem shapes_overwriting :
    Rules.Overwriting (fun _ => True) (fun _ => True) fun before after : Context => after.shapes = before.shapes where
  growth := ⟨fun _ => rfl, fun first second => second.trans first⟩
  filled _ _ unset := ⟨trivial, shapes_store (by rw [unset]; rfl) _⟩
  written _ _ _ done := ⟨trivial, shapes_write? done⟩

/-- A computation that changes no shape keeps what is steady. -/
theorem steady_gives {α : Type} {start : Context} {program : EvalM α}
    (stays : Rules.Stays (fun _ => True) (fun before after : Context => after.shapes = before.shapes)
      program) : Rules.Gives start.Steady (fun _ => True) program :=
  fun context steady =>
    ⟨Steady.growth.trans steady (.of_shapes (stays context trivial).2), fun _ _ => trivial⟩

theorem steady_assigned {start : Context} {target : Handle} (placed : start.Placed target)
    (value : Handle) : Rules.Gives start.Steady start.Placed (Assignment.assign target value) := by
  apply Rules.Gives.bind_get
  intro context steady
  have written (place : Place) : Rules.Gives start.Steady (fun _ => True)
      (Assignment.writeTo place (context.valueOf value)) :=
    steady_gives (Rules.writeTo_stays shapes_overwriting trivial (context.valueOf value))
  cases target with
  | slot frame name =>
    cases hosted : Assignment.isHosted context frame name with
    | true =>
      simp only [hosted, if_true]
      exact Rules.Gives.bind (written (.slot frame name)) (fun _ _ => .pure placed) context steady
    | false =>
      simp only [hosted]
      refine ⟨placed.store steady _, ?_⟩
      rintro _ ⟨⟩
      exact placed
  | reference mutable place =>
    cases mutable with
    | true => exact Rules.Gives.bind (written place) (fun _ _ => .pure trivial) context steady
    | false => exact ⟨steady, nofun⟩
  | vacant container key =>
    have inserted : Rules.Gives start.Steady (fun _ => True)
        (Assignment.insertAt container key (context.valueOf value)) :=
      steady_gives (Rules.insertAt_stays shapes_overwriting trivial key (context.valueOf value))
    exact Rules.Gives.bind inserted (fun _ _ => .pure trivial) context steady
  | _ => exact ⟨steady, nofun⟩

theorem steady_looked (start : Context) (mode : EvalMode) (name : String) :
    Rules.Gives start.Steady start.Placed (Eval.lookupName mode name) := by
  apply Rules.lookupName_gives mode trivial (fun _ => trivial) (fun _ => trivial)
  intro context frame steady found
  exact placed_of_known steady (known_of_find? found)

theorem steady_declared (start : Context) (name : String) :
    Rules.Gives start.Steady start.Placed (Eval.declare name) := by
  apply Rules.declare_gives
  intro context steady
  refine ⟨Steady.growth.trans steady (.innermost context _), .inl ?_⟩
  rw [current, steady.depth]
  omega

theorem steady_handling (start : Context) : Rules.Handling start.Steady start.Placed where
  owned _ := trivial
  member _ _ target member := placed_member ..
  settled {handle} placed := by
    cases handle with
    | vacant container key => trivial
    | _ => exact placed
  updated _ change := steady_gives (Rules.update_stays shapes_overwriting (Rules.leads_anywhere _) change)
  assigned placed _ := steady_assigned placed _
  looked := steady_looked start
  declared := steady_declared start

end Context

/-! The scopes after a run. A run adds to the scope it begins in and leaves those around it as they
were; conditions, cases and loops run everything in scopes of their own, and so add to none. -/

namespace Context

theorem shapes_pushScope (context : Context) :
    context.pushScope.shapes = context.shapes ++ [Frame.empty.shape] :=
  List.map_append ..

theorem shapes_popScope {context : Context} (inner : 1 < context.depth) :
    context.popScope.shapes = context.shapes.dropLast := by
  rw [shapes, frames_popScope inner, shapes, List.map_dropLast]

/-- After a scope has been opened and closed again, nothing has been added to those around it. -/
theorem shapes_closed {before inner : Context} (opened : 0 < before.depth)
    (steady : before.pushScope.Steady inner) : inner.popScope.shapes = before.shapes := by
  have deeper : 1 < inner.depth := by
    rw [steady.depth, depth_pushScope]
    omega
  rw [shapes_popScope deeper, steady.outer, shapes_pushScope, List.dropLast_concat]

/-- Everything that a run does leaves the scopes around the innermost one as they are. -/
theorem steady_kept : Rules.ScopesKept (fun context => 0 < context.depth) Steady := by
  have keeps {before after : Context} (opened : 0 < before.depth) (steady : before.Steady after) :
      0 < after.depth ∧ before.Steady after :=
    ⟨by rw [steady.depth]; exact opened, steady⟩
  have untouched {before after : Context} (opened : 0 < before.depth)
      (same : after.frames = before.frames) : 0 < after.depth ∧ before.Steady after :=
    keeps opened (.of_shapes (shapes_congr same))
  have evaluates {α : Type} {program : EvalM α} {good : Context → α → Prop}
      (gives : ∀ start : Context, Rules.Gives start.Steady (good start) program) :
      Rules.Stays (fun context => 0 < context.depth) Steady program :=
    fun context opened => keeps opened (gives context context (Steady.growth.refl context)).1
  exact {
    growth := Steady.growth
    evaluated := fun mode expr =>
      evaluates fun start => Rules.eval_gives (steady_handling start) mode expr
    listed := fun mode items =>
      evaluates fun start => Rules.evalItems_gives (steady_handling start) mode items
    reported := fun _ _ opened => untouched opened rfl
    refused := fun _ opened => untouched opened rfl
    counted := fun _ opened => untouched opened rfl
    told := fun opened _ => untouched opened rfl
    taken := fun _ opened => untouched opened rfl
    forgotten := fun _ opened => untouched opened rfl
    named := fun _ _ context opened => keeps opened (.innermost context _)
    stored := fun _ context opened => keeps opened (.innermost context _)
    defined := fun {context} _ _ opened defined => by
      unfold Context.defineMixin at defined
      split at defined
      · cases defined
      · cases defined
        exact keeps opened (.innermost context _)
    opened := fun {context} opened => by
      rw [depth_pushScope]
      omega
    closed := fun opened _ steady => keeps opened (.of_shapes (shapes_closed opened steady))
    aliased := fun {_ _ _ inner _ _} _ _ _ _ opened _ _ => keeps opened (.innermost inner _) }

end Context

namespace Chunk

/-- Conditions, cases and loops, with their alternatives. -/
def isControl : Chunk → Bool
  | ifBlock _ _ | unlessBlock _ _ | elseIfBlock _ _ | elseBlock _ | caseBlock _ _
  | eachBlock _ _ _ _ | whileBlock _ _ => true
  | _ => false

end Chunk

namespace Scopes

open Rules

/-- The scopes that were open before are open, each with the shape it had. -/
def Level (before after : RunState) : Prop := after.context.shapes = before.context.shapes

abbrev Opened (state : RunState) : Prop := 0 < state.context.depth

/-- Only the innermost scope has been added to. -/
abbrev Grown (before after : RunState) : Prop := before.context.Steady after.context

theorem level_growth : Growth Level := ⟨fun _ => rfl, fun first second => second.trans first⟩

variable {α : Type} {part : RunM α} {again : RunOptions → List Chunk → RunM Unit}

theorem stays_level (level : ∀ state, Opened state → Level state (part state).2) :
    Stays Opened Level part := by
  intro state opened
  have same := level state opened
  refine ⟨?_, same⟩
  rw [Opened, ← Context.length_shapes, same, Context.length_shapes]
  exact opened

theorem level_of_frames (same : ∀ state, (part state).2.context.frames = state.context.frames) :
    Stays Opened Level part :=
  stays_level fun state _ => Context.shapes_congr (same state)

theorem level_inScope (stays : Stays Opened Grown part) : Stays Opened Level (Render.inScope part) :=
  stays_level fun state opened =>
    Context.shapes_closed opened (stays state.opened (Context.steady_kept.opened opened)).2

theorem level_flush (options : RunOptions) : Stays Opened Level (Render.flushReports options) := by
  have written (text : String) : Stays Opened Level (Render.write text) := by
    apply level_of_frames
    intro state
    rw [Render.write_eq]
    split <;> rfl
  exact .flushing level_growth written (level_of_frames fun _ => rfl) (level_of_frames fun _ => rfl)
    options

theorem level_afterChain {options : RunOptions} (chain : Render.Chain)
    (later : Stays Opened Level part) : Stays Opened Level (Render.afterChain options chain part) := by
  have began : Stays Opened Level (do
      Render.note .began
      part) :=
    .bind level_growth (level_of_frames fun _ => rfl) fun _ => later
  unfold Render.afterChain
  cases chain.isOpen with
  | true => exact .bind level_growth (level_flush options) fun _ => began
  | false => exact began

/-- Conditions, cases and loops keep the shapes of all scopes that are open before them. -/
theorem level_controls (stays : AllStay Opened Grown again) (bound : Nat) (options : RunOptions)
    (chunks : List Chunk) (controls : ∀ chunk ∈ chunks, chunk.isControl = true)
    (chain : Render.Chain) :
    Stays Opened Level (Render.runChunks again bound options chain chunks) := by
  have kept := Context.steady_kept.run
  have body (chunks : List Chunk) : Stays Opened Grown
      (Render.entering chunks (Render.runChunks again bound options .closed chunks)) :=
    .entering kept chunks (runChunks_stays kept stays bound options .closed chunks)
  induction chunks generalizing chain with
  | nil =>
    rw [Render.runChunks_nil]
    split
    · exact level_flush options
    · exact .pure level_growth ()
  | cons chunk rest step =>
    have further (chain : Render.Chain) :=
      step (fun other member => controls other (List.mem_cons_of_mem _ member)) chain
    have ends : Stays Opened Level (do
        Render.flushReports options
        Render.runChunks again bound options .closed rest) :=
      .bind level_growth (level_flush options) fun _ => further _
    have alone (untaken : chain.takes chunk = false) (closes : chunk.opensChain = false)
        (one : Stays Opened Level (Render.runChunk again bound options chunk)) :
        Stays Opened Level (Render.runChunks again bound options chain (chunk :: rest)) := by
      rw [Render.runChunks_alone again bound options untaken closes]
      exact level_afterChain chain (.bind level_growth one fun _ => ends)
    have control := controls chunk (List.mem_cons_self ..)
    cases chunk with
    | ifBlock guard chunks =>
      rw [Render.runChunks_if]
      exact level_afterChain chain (.bind level_growth
        (level_inScope (.guarded kept guard false (body chunks))) fun _ => further _)
    | unlessBlock guard chunks =>
      rw [Render.runChunks_unless]
      exact level_afterChain chain (.bind level_growth
        (level_inScope (.guarded kept guard true (body chunks))) fun _ => further _)
    | eachBlock item key source chunks =>
      rw [Render.runChunks_each]
      exact level_afterChain chain (.bind level_growth
        (level_inScope (.loop kept item key source _ (body chunks))) fun _ => further _)
    | elseIfBlock guard chunks =>
      cases chain with
      | conditions done =>
        rw [Render.runChunks_elseIf]
        cases done with
        | true => exact .bind level_growth (.pure level_growth true) fun _ => further _
        | false =>
          exact .bind level_growth (level_of_frames fun _ => rfl) fun _ =>
            .bind level_growth (level_inScope (.guarded kept guard false (body chunks)))
              fun _ => further _
      | _ => exact alone rfl rfl (.pure level_growth ())
    | elseBlock chunks =>
      cases isOpen : chain.isOpen with
      | true =>
        rw [Render.runChunks_else again bound options isOpen]
        cases chain.isDone with
        | true => exact ends
        | false => exact .bind level_growth (level_inScope (body chunks)) fun _ => ends
      | false =>
        cases chain with
        | closed => exact alone rfl rfl (.pure level_growth ())
        | _ => cases isOpen
    | caseBlock subject branches =>
      refine alone (by cases chain <;> rfl) rfl ?_
      unfold Render.runChunk
      exact level_inScope (.bind kept.growth
        (.inContext fun state => execValue_acts (kept.within state) subject) fun value =>
          runBranches_stays kept stays bound options value false branches)
    | whileBlock guard chunks =>
      refine alone (by cases chain <;> rfl) rfl ?_
      unfold Render.runChunk
      exact .repeating level_growth (level_inScope (.guardedPass kept guard (body chunks))) bound
    | _ => cases control

/-- However a run ends, it leaves as many scopes open as it found; and conditions, cases and loops
with the alternatives to them leave every scope the names, the mixins and the number of values
without a name that it had. In every context of a host a scope is open. -/
theorem scopes_restored (bound : Nat) :
    (∀ (template : Template) (context : Context) (sink : Sink), 0 < context.depth →
      (template.run bound context sink).2.context.depth = context.depth) ∧
    ∀ (options : RunOptions) (chunks : List Chunk) (state : RunState), 0 < state.context.depth →
      (∀ chunk ∈ chunks, chunk.isControl = true) →
      (Render.run bound options chunks state).2.context.shapes = state.context.shapes := by
  constructor
  · intro template context sink opened
    exact (template_run_keeps Context.steady_kept template bound opened sink).2.depth
  · intro options chunks state opened controls
    cases bound with
    | zero => rfl
    | succ bound =>
      exact (level_controls (run_stays Context.steady_kept.run bound) bound options chunks controls
        .closed state opened).2

/-- A loop over an array of its own, with a body that declares a name, defines a mixin and writes. -/
def declaring : Template where
  chunks :=
    [.eachBlock "item" (some "at")
        (.bracketed .square (.binary .comma (.literal (.int 1)) (.literal (.int 2))))
        [.code (.binary .assign (.unary .declare (.name "found")) (.name "item")),
          .mixin "part" (.name "part") [], .output true (.name "found")],
      .elseBlock [.text "none"]]
  includes := []
  pretty := false
  stopOnError := false

/-- The output of the second pass is refused. -/
theorem declaring_restored :
    let start : RunState := { context := .new, sink := .ofLimit (some 1) }
    (declaring.run 1 .new start.sink).2.sink = { text := "1", limit := some 1, broken := true } ∧
    0 < Context.new.depth ∧ (declaring.run 1 .new start.sink).2.context.depth = 1 ∧
    (∀ chunk ∈ declaring.chunks, chunk.isControl = true) ∧
    (Render.run 1 declaring.runOptions declaring.chunks start).2.context.shapes = Context.new.shapes := by
  have opened : 0 < Context.new.depth := Nat.one_pos
  have controls : ∀ chunk ∈ declaring.chunks, chunk.isControl = true := by simp [declaring, Chunk.isControl]
  refine ⟨by decide +kernel, opened, ?_, controls, ?_⟩
  · exact (scopes_restored 1).1 declaring .new _ opened
  · exact (scopes_restored 1).2 declaring.runOptions declaring.chunks _ opened controls

end Scopes

end HtmlTemplate
