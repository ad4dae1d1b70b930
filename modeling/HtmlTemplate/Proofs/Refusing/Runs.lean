import HtmlTemplate.Proofs.Folding.Abreast
import HtmlTemplate.Proofs.Rules.Assembly

/-! Outputs that refuse. A run is compared with the same run for an output that takes everything. Up to the
first write that is refused the two do the same; there the first run ends, while the other one only adds
to what it has written. -/

namespace HtmlTemplate.Refusing

open Rules Render

/-- There are no templates to include. -/
abbrev Free (context : Context) : Prop := ∀ name, context.loader name = .missing

theorem free_apart : Apart Free where
  congr free _ loader _ name := loader ▸ free name
  reported _ free := free
  told {context name note} free failed := by
    rw [free name] at failed
    cases failed
  taken free := free
  forgotten free := free

/-- What has been written is still there. -/
def Kept (before after : RunState) : Prop := before.sink.text.toList <+: after.sink.text.toList

theorem kept_growth : Growth Kept := ⟨fun _ => List.prefix_rfl, fun first second => first.trans second⟩

/-- Two runs that have done the same. Only the output of the first one may come to refuse. -/
structure Level (state twin : RunState) : Prop where
  context : twin.context = state.context
  past : twin.past = state.past
  text : twin.sink.text = state.sink.text
  whole : state.sink.broken = false
  endless : twin.sink.Endless
  free : Free state.context

namespace Level

variable {state twin : RunState}

theorem withContext (level : Level state twin) {context : Context} (free : Free context) :
    Level { state with context } { twin with context } :=
  ⟨rfl, level.past, level.text, level.whole, level.endless, free⟩

theorem remember (level : Level state twin) (event : Event) :
    Level (state.remember event) (twin.remember event) := by
  refine ⟨level.context, ?_, level.text, level.whole, level.endless, level.free⟩
  unfold RunState.remember
  rw [level.context, level.past]

end Level

variable {α β : Type}

/-- Two ends of runs: the same, or the first run has ended at a write that was refused. -/
inductive Ended : Except Halt α × RunState → Except Halt α × RunState → Prop where
  | level {state twin} {result : Except Halt α} (taken : result ≠ .error .output) (level : Level state twin) :
      Ended (result, state) (result, twin)
  | refused {state twin} {result : Except Halt α} (broken : state.sink.broken = true) (kept : Kept state twin) :
      Ended (.error .output, state) (result, twin)

/-- Two runs do the same up to the first write that is refused, and the second one takes nothing back. -/
structure Follows (first second : RunM α) : Prop where
  ends : ∀ state twin, Level state twin → Ended (first state) (second twin)
  stays : Stays (fun state => Free state.context) Kept second

namespace Follows

variable {first second : RunM α}

/-- A part that ends in the same way, whatever is written. -/
theorem of_level (result : RunState → Except Halt α) (taken : ∀ state, result state ≠ .error .output)
    (stays : Stays (fun state => Free state.context) Kept second)
    (levels : ∀ state twin, Level state twin → ∃ after following, first state = (result state, after) ∧
      second twin = (result state, following) ∧ Level after following) : Follows first second where
  ends state twin level := by
    obtain ⟨after, following, ran, twinRan, level⟩ := levels state twin level
    rw [ran, twinRan]
    exact .level (taken state) level
  stays := stays

theorem pure (value : α) : Follows (Pure.pure value : RunM α) (Pure.pure value) :=
  .of_level (fun _ => .ok value) nofun (.pure kept_growth value)
    fun state twin level => ⟨state, twin, rfl, rfl, level⟩

theorem throw {halt : Halt} (other : halt ≠ .output) :
    Follows (MonadExcept.throw halt : RunM α) (MonadExcept.throw halt) :=
  .of_level (fun _ => .error halt) (fun _ same => other (Except.error.inj same)) (.throw kept_growth halt)
    fun state twin level => ⟨state, twin, rfl, rfl, level⟩

theorem bind {next following : α → RunM β} (follows : Follows first second)
    (goesOn : ∀ value, Follows (next value) (following value)) :
    Follows (first >>= next) (second >>= following) where
  ends state twin level := by
    have ended := follows.ends state twin level
    have free : Free twin.context := level.context ▸ level.free
    have free := (follows.stays twin free).1
    rw [bind_eq, bind_eq]
    generalize first state = one at ended
    generalize second twin = other at ended free
    cases ended with
    | @level after twinAfter result taken level =>
      cases result with
      | error halt => exact .level (fun same => taken (by cases same; rfl)) level
      | ok value => exact (goesOn value).ends _ _ level
    | @refused after twinAfter result broken kept =>
      cases result with
      | error halt => exact .refused broken kept
      | ok value => exact .refused broken (kept.trans ((goesOn value).stays twinAfter free).2)
  stays := .bind kept_growth follows.stays fun value => (goesOn value).stays

theorem inContext {action : Context → α × Context} (acts : Acts Free (fun _ _ => True) action) :
    Follows (Render.inContext action) (Render.inContext action) := by
  refine .of_level (fun state => .ok (action state.context).1) nofun
    (.inContext fun _ context free => ⟨(acts context free).1, List.prefix_rfl⟩) ?_
  intro state twin level
  refine ⟨_, _, rfl, ?_, level.withContext (acts _ level.free).1⟩
  rw [inContext_eq, level.context]

theorem modifyContext {change : Context → Context} (keeps : Keeps Free (fun _ _ => True) change) :
    Follows (Render.modifyContext change) (Render.modifyContext change) := by
  refine .of_level (fun _ => .ok ()) nofun
    (.modifyContext fun _ context free => ⟨(keeps context free).1, List.prefix_rfl⟩) ?_
  intro state twin level
  refine ⟨_, { twin with context := change state.context }, rfl, ?_,
    level.withContext (keeps _ level.free).1⟩
  rw [← level.context]
  rfl

/-- A run that looks at its context. -/
theorem reading {next following : Context → RunM α}
    (goesOn : ∀ context, Follows (next context) (following context)) :
    Follows (getContext >>= next) (getContext >>= following) where
  ends state twin level := by
    rw [bind_eq, bind_eq, getContext_eq, getContext_eq, level.context]
    exact (goesOn state.context).ends state twin level
  stays state free := (goesOn state.context).stays state free

theorem note (event : Event) : Follows (Render.note event) (Render.note event) :=
  .of_level (fun _ => .ok ()) nofun (fun _ free => ⟨free, List.prefix_rfl⟩)
    fun _ _ level => ⟨_, _, rfl, rfl, level.remember event⟩

/-- What is taken of a text that is refused is its beginning. -/
theorem remnant_prefix (sink : Sink) (text : String) : (sink.remnant text).toList <+: text.toList := by
  unfold Sink.remnant
  split
  · rw [String.toList_ofList]
    exact List.take_prefix ..
  · exact List.nil_prefix

theorem write (text : String) : Follows (Render.write text) (Render.write text) where
  ends state twin level := by
    obtain ⟨context, past, wrote, whole, endless, free⟩ := level
    rw [write_eq, write_eq, endless.write, if_pos rfl]
    unfold Sink.write
    cases accepted : state.sink.accepts text with
    | true =>
      have wrote : twin.sink.text ++ text = state.sink.text ++ text := congrArg (· ++ text) wrote
      have added : Level
          { state with sink := { state.sink with
              text := state.sink.text ++ text, limit := state.sink.limit.map Sink.Limit.spent } }
          { twin with sink := { twin.sink with text := twin.sink.text ++ text } } :=
        ⟨context, past, wrote, whole, ⟨endless.limit, endless.whole⟩, free⟩
      exact .level nofun (added.remember (.wrote text))
    | false =>
      refine .refused rfl ?_
      change (state.sink.text ++ state.sink.remnant text).toList <+: (twin.sink.text ++ text).toList
      rw [wrote, String.toList_append, String.toList_append, List.prefix_append_right_inj]
      exact remnant_prefix state.sink text
  stays state free := by
    have added (sink : Sink) (more : String) (same : sink.text = state.sink.text ++ more) (event : Event) :
        Kept state { state with sink } ∧ Kept state ({ state with sink }.remember event) := by
      have grown : state.sink.text.toList <+: sink.text.toList := by
        rw [same, String.toList_append]
        exact List.prefix_append ..
      exact ⟨grown, grown⟩
    rw [write_eq]
    unfold Sink.write
    cases state.sink.accepts text with
    | true => exact ⟨free, (added { state.sink with text := _, limit := _ } text rfl _).2⟩
    | false => exact ⟨free, (added { state.sink with text := _, broken := true } _ rfl (.wrote text)).1⟩

theorem forM {act : β → RunM Unit} (follows : ∀ item, Follows (act item) (act item)) (items : List β) :
    Follows (items.forM act) (items.forM act) := by
  induction items with
  | nil => exact .pure ()
  | cons item rest step => exact .bind (follows item) fun _ => step

theorem flushReports (options : RunOptions) :
    Follows (Render.flushReports options) (Render.flushReports options) := by
  refine .bind (.inContext fun _ free => ⟨free, trivial⟩) fun messages => ?_
  refine .bind (.forM (fun message => .write (comment message)) messages) fun _ => ?_
  split
  · refine .reading fun context => ?_
    split
    · exact .pure ()
    · exact .bind (.modifyContext fun _ free => ⟨free, trivial⟩) fun _ => .throw nofun
  · exact .pure ()

theorem closing (follows : Follows first second) :
    Follows (Render.closing first) (Render.closing second) where
  ends state twin level := by
    have ended := follows.ends state twin level
    unfold Render.closing
    generalize first state = one at ended
    generalize second twin = other at ended
    cases ended with
    | @level after twinAfter _ taken level =>
      have closed : Level after.closed { twinAfter with context := after.context.popScope } :=
        level.withContext (free_apart.popScope level.free)
      rw [← level.context] at closed
      exact .level taken closed
    | refused broken kept => exact .refused broken kept
  stays state free := by
    obtain ⟨free, kept⟩ := follows.stays state free
    exact ⟨free_apart.popScope free, kept⟩

/-- Where there are no templates, including one writes that there is none. -/
theorem runInclude (again : RunOptions → List Chunk → RunM Unit) (options : RunOptions) (name : String)
    (depth : Nat) :
    Follows (Render.runInclude again options name depth) (Render.runInclude again options name depth) := by
  have missed : Follows (missed options name depth) (missed options name depth) := by
    unfold Render.missed
    split
    · exact .bind (.write "") fun _ => .write _
    · exact .write _
  constructor
  · intro state twin level
    rw [runInclude_missing again options depth (level.free name),
      runInclude_missing again options depth (level.context ▸ level.free name)]
    exact missed.ends state twin level
  · intro state free
    rw [runInclude_missing again options depth (free name)]
    exact missed.stays state free

end Follows

theorem follows_assembles : Assembles Follows where
  pure := .pure
  bind := .bind
  exhausted := .throw nofun
  noted {event} _ := .note event
  written := .write
  flushed := .flushReports
  asked asked := .inContext (asked.acts free_apart)
  counted := .inContext free_apart.steps
  changed changed := .modifyContext (changed.keeps free_apart)
  defined name signature body := .modifyContext (free_apart.defines name signature body)
  closing := .closing
  escaping goesOn := .reading fun context => goesOn context.escapeOutput
  finding name _ _ goesOn := .reading fun context => goesOn (context.mixin? name)
  included := .runInclude

/-- An output that comes to refuse loses the end of what is written, and nothing else: the run ends at the
first write that is refused, and says so. Where none is refused the run is the one for an output that
takes everything. -/
theorem refused_prefix (template : Template) (bound : Nat) {context : Context} {sink : Sink}
    (free : ∀ name, context.loader name = .missing) (whole : sink.broken = false) :
    let ended := template.run bound context sink
    let full := template.run bound context { sink with limit := none }
    (ended.1 = .error .output ↔ ended.2.sink.broken = true) ∧
      ended.2.sink.text.toList <+: full.2.sink.text.toList ∧
      (ended.2.sink.broken = false → ended.1 = full.1 ∧ ended.2.context = full.2.context ∧
        ended.2.past = full.2.past ∧ ended.2.sink.text = full.2.sink.text) := by
  intro ended full
  have start : Level { context := context.forgetLast, sink }
      { context := context.forgetLast, sink := { sink with limit := none } } :=
    ⟨rfl, rfl, rfl, whole, ⟨rfl, whole⟩, free⟩
  have run := (follows_assembles.run bound template.runOptions template.chunks).ends _ _ start
  change Ended ended full at run
  clear_value ended full
  cases run with
  | level taken level =>
    refine ⟨iff_of_false taken ?_, ?_, fun _ => ⟨rfl, level.context.symm, level.past.symm, level.text.symm⟩⟩
    · rw [level.whole]
      exact Bool.false_ne_true
    · exact level.text ▸ List.prefix_rfl
  | refused broken kept =>
    exact ⟨iff_of_true rfl broken, kept, fun whole => absurd (whole.symm.trans broken) Bool.false_ne_true⟩

/-- A list with a value that is not known after it. -/
def listed : Template where
  chunks :=
    [.text "<ul>",
      .eachBlock "item" none
        (.bracketed .square (.binary .comma (.literal (.int 1)) (.literal (.int 2))))
        [.text "<li>", .output true (.name "item")],
      .output true (.name "missing")]
  includes := []
  pretty := false
  stopOnError := false

/-- The output takes one write and two characters of the next one. -/
theorem listed_prefix :
    let sink : Sink := { text := "", limit := some (.writes 1 2), broken := false }
    let ended := listed.run 1 .new sink
    let full := listed.run 1 .new { sink with limit := none }
    (∀ name, Context.new.loader name = .missing) ∧ sink.broken = false ∧
      ended.1 = .error .output ∧ ended.2.sink.text = "<ul><l" ∧
      full.2.sink.text = "<ul><li>1<li>2<!-- Context error: Invalid variable name: missing -->" ∧
      ended.2.sink.text.toList <+: full.2.sink.text.toList := by
  intro sink ended full
  have free : ∀ name, Context.new.loader name = .missing := fun _ => rfl
  obtain ⟨failed, kept, -⟩ := refused_prefix listed 1 free (rfl : sink.broken = false)
  exact ⟨free, rfl, failed.mpr (by decide +kernel), by decide +kernel, by decide +kernel, kept⟩

end HtmlTemplate.Refusing
