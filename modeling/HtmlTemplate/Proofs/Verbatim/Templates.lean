import HtmlTemplate.Proofs.Folding.Abreast
import HtmlTemplate.Proofs.Verbatim.Lines

/-! Running a template that is known text. The text is written as it is; what has been reported before the run
and waits is written after it. -/

namespace HtmlTemplate

namespace Verbatim

open Render Rules

/-- A part of a run comes to its end. It writes a text, if nothing is refused, and leaves a context. -/
def Ends (part : RunM Unit) (before : Context) (text : String) (after : Context) : Prop :=
  ∀ state, state.context = before → state.sink.Endless → ∃ ended, part state = (.ok (), ended) ∧
    ended.context = after ∧ ended.sink = { state.sink with text := state.sink.text ++ text }

namespace Ends

variable {before between after : Context} {first next : RunM Unit} {text more : String}

theorem bind (ends : Ends first before text between) (goesOn : Ends next between more after) :
    Ends (do
      first
      next) before (text ++ more) after := by
  intro state same endless
  obtain ⟨middle, done, context, sink⟩ := ends state same endless
  obtain ⟨ended, finished, last, output⟩ := goesOn middle context (by rw [sink]; exact ⟨endless.limit, endless.whole⟩)
  refine ⟨ended, ?_, last, ?_⟩
  · rw [bind_eq, done]
    exact finished
  · rw [output, sink, String.append_assoc]

theorem pure (context : Context) : Ends (Pure.pure ()) context "" context := by
  intro state same endless
  exact ⟨state, rfl, same, by rw [String.append_empty]⟩

theorem note (event : Event) (context : Context) : Ends (Render.note event) context "" context := by
  intro state same endless
  exact ⟨state.remember event, rfl, same, by rw [String.append_empty]; rfl⟩

theorem write (text : String) (context : Context) : Ends (Render.write text) context text context := by
  intro state same endless
  rw [write_eq, endless.write, if_pos rfl]
  exact ⟨_, rfl, same, rfl⟩

theorem comments (messages : List String) (context : Context) :
    Ends (messages.forM fun message => Render.write (comment message)) context
      (String.join (messages.map comment)) context := by
  induction messages with
  | nil => exact .pure context
  | cons message messages step =>
    rw [List.map_cons, String.join_cons]
    exact (write (comment message) context).bind step

/-- What waits is written, and the run goes on if nothing has been reported since it began. -/
theorem flushReports (options : RunOptions) {context : Context} (calm : context.reports.last = none) :
    Ends (Render.flushReports options) context (String.join (context.reports.pending.map comment))
      context.takePending.2 := by
  intro state same endless
  obtain ⟨ended, done, after, sink⟩ := comments context.takePending.1 context.takePending.2
    { state with context := context.takePending.2 } rfl ⟨endless.limit, endless.whole⟩
  have last : ended.context.reports.last = none := by
    rw [after]
    exact calm
  refine ⟨ended, ?_, after, sink⟩
  rw [Render.flushReports, bind_eq, inContext_eq, same]
  dsimp only
  rw [bind_eq, done]
  dsimp only
  split
  · rw [bind_eq, getContext_eq]
    dsimp only
    rw [last]
    rfl
  · rfl

end Ends

/-- The reports that wait before a run and are written in it: all of them, unless nothing is run. -/
def waiting (content : String) (context : Context) : List String :=
  if content = "" then [] else context.reports.pending

/-- The reports that go on waiting after a run. -/
def remaining (content : String) (context : Context) : List String :=
  if content = "" then context.reports.pending else []

theorem run_ofText (stopOnError : Bool) (content : String) (bound : Nat) (context : Context) :
    ∃ after, Ends (Render.run (bound + 1) (ofText stopOnError content).runOptions (ofText stopOnError content).chunks)
      context.forgetLast (content ++ String.join ((waiting content context).map comment)) after ∧
      after.reports.faults = context.reports.faults ∧ after.reports.pending = remaining content context := by
  unfold waiting remaining ofText Folding.written Render.run
  dsimp only
  split
  · rename_i empty
    rw [empty, List.map_nil, String.join_nil, String.append_empty, runChunks_nil]
    exact ⟨context.forgetLast, .pure _, rfl, rfl⟩
  · refine ⟨context.forgetLast.takePending.2, ?_, rfl, rfl⟩
    rw [runChunks_alone _ _ _ rfl rfl, afterChain, runChunk, runChunks_nil]
    have calm : context.forgetLast.reports.last = none := rfl
    have flushed := Ends.flushReports (Template.runOptions
      { chunks := [.text content], includes := [], pretty := false, stopOnError }) calm
    have all := (Ends.note .began _).bind ((Ends.write content _).bind (flushed.bind (.pure _)))
    rw [String.empty_append, String.append_empty] at all
    exact all

end Verbatim

namespace Template

open Verbatim

/-- Every run of a template comes to its end. It writes a text and after it, as comments, the reports that waited
before the run, which then wait no longer, and it reports nothing itself. Where the text is empty, the reports
go on waiting. -/
def Writes (template : Template) (content : String) : Prop :=
  ∀ bound context, ∃ ended, template.run (bound + 1) context .unlimited = (.ok (), ended) ∧
    ended.sink.text = content ++ String.join ((waiting content context).map Render.comment) ∧
    ended.context.reports.faults = context.reports.faults ∧
    ended.context.reports.pending = remaining content context

end Template

namespace Verbatim

theorem ofText_writes (stopOnError : Bool) (content : String) : (ofText stopOnError content).Writes content := by
  intro bound context
  obtain ⟨after, ends, silent, left⟩ := run_ofText stopOnError content bound context
  obtain ⟨ended, done, last, sink⟩ := ends { context := context.forgetLast, sink := .unlimited } rfl ⟨rfl, rfl⟩
  refine ⟨ended, done, ?_, ?_, ?_⟩
  · rw [sink]
    exact String.empty_append
  · rw [last, silent]
  · rw [last, left]

/-- Every text of one line without backslashes can be written literally, after a bar or in a tag. -/
theorem text_written_literally {text : List Char} (lettered : Lettered text)
    (begins : ∀ char ∈ text.head?, CharClass.isSpacing char = false) (stopOnError : Bool) :
    ∃ line tag, Template.ofSource { pretty := false, stopOnError } ("| ".toList ++ escapeMarks text) = .ok line ∧
      Template.ofSource { pretty := false, stopOnError } ("p ".toList ++ escapeMarks text) = .ok tag ∧
      line.Writes (String.ofList text) ∧ tag.Writes ("<p>" ++ String.ofList text ++ "</p>") :=
  ⟨_, _, ofSource_piped lettered begins stopOnError, ofSource_tagged lettered begins stopOnError,
    ofText_writes stopOnError _, ofText_writes stopOnError _⟩

theorem marks_written_literally :
    Lettered "a##\x7bb\x7d ![!\x7b#[".toList ∧
      escapeMarks "a##\x7bb\x7d ![!\x7b#[".toList = "a#\\#\x7bb\x7d ![\\!\x7b\\#[".toList ∧
      ∃ line tag,
        Template.ofSource { pretty := false, stopOnError := true }
          ("| ".toList ++ escapeMarks "a##\x7bb\x7d ![!\x7b#[".toList) = .ok line ∧
        Template.ofSource { pretty := false, stopOnError := true }
          ("p ".toList ++ escapeMarks "a##\x7bb\x7d ![!\x7b#[".toList) = .ok tag ∧
        line.Writes (String.ofList "a##\x7bb\x7d ![!\x7b#[".toList) ∧
        tag.Writes ("<p>" ++ String.ofList "a##\x7bb\x7d ![!\x7b#[".toList ++ "</p>") := by
  have lettered : Lettered "a##\x7bb\x7d ![!\x7b#[".toList := by decide
  exact ⟨lettered, by decide, text_written_literally lettered (by rintro _ ⟨⟩; rfl) true⟩

/-- A report that waited before the run stands after the text. -/
theorem report_written_after : ∃ template,
    Template.ofSource { pretty := false, stopOnError := false } ("| ".toList ++ escapeMarks ['t']) = .ok template ∧
      (template.run 1 (Context.new.report "x") .unlimited).2.sink.text = "t<!-- Context error: x -->" ∧
      ¬∀ context, (template.run 1 context .unlimited).2.sink.text = "t" := by
  have lettered : Lettered ['t'] := by decide
  have output : ((ofText false "t").run 1 (Context.new.report "x") .unlimited).2.sink.text =
      "t<!-- Context error: x -->" := by decide +kernel
  refine ⟨ofText false "t", ofSource_piped lettered (by rintro _ ⟨⟩; rfl) false, output, fun always => ?_⟩
  rw [always] at output
  exact absurd output (by decide +kernel)

end Verbatim

end HtmlTemplate
