import HtmlTemplate.Proofs.Context.Holdings
import HtmlTemplate.Proofs.Reporting.Comments
import HtmlTemplate.Proofs.Tags.Chunks
import HtmlTemplate.Proofs.Tags.Compilation
import HtmlTemplate.Template.Source

/-! Whatever branches are run, the tags that a template writes are properly nested, if it has no markup of
its own but tags. Its chunks are wholes, and a body that is run leads back to the place where it stands, so that
whatever is chosen, repeated and called, what is written leads where the chunks lead. -/

namespace HtmlTemplate.Tags

open Rules Render Compilation Token

variable {α β : Type}

/-- Outputs are escaped, the host takes all reports, and none waits from before. -/
structure Quiet (context : Context) : Prop where
  escapes : context.escapeOutput = true
  taken : context.reports.taken.isSome = true
  idle : context.reports.pending = []

theorem quiet_apart : Apart Quiet where
  congr holds reports _ escape := ⟨escape ▸ holds.escapes, reports ▸ holds.taken, reports ▸ holds.idle⟩
  reported {context} fault holds := by
    obtain ⟨messages, taken⟩ := Option.isSome_iff_exists.mp holds.taken
    refine ⟨holds.escapes, ?_, ?_⟩ <;> unfold Context.reportFault Reports.add <;> rw [taken]
    · rfl
    · exact holds.idle
  told {context name note} holds _ := ⟨holds.escapes, by simpa [Context.notify] using holds.taken, holds.idle⟩
  taken holds := ⟨holds.escapes, holds.taken, rfl⟩
  forgotten holds := ⟨holds.escapes, holds.taken, holds.idle⟩

/-- And the mixins that are defined are wholes. -/
structure Tidy (context : Context) : Prop extends Quiet context where
  mixins : context.Holds Whole

/-- A run that comes to its end leaves a context that is tidy too, and writes a text that fits its
result. -/
def Emits (fits : α → String → Prop) (program : RunM α) : Prop :=
  ∀ state value after, Tidy state.context → program state = (.ok value, after) →
    Tidy after.context ∧ ∃ text, fits value text ∧ after.sink.text = state.sink.text ++ text

/-- What it writes leads from one place to another one. -/
abbrev Goes (before after : Place) (program : RunM α) : Prop :=
  Emits (fun _ text => Carries text before after) program

/-- What it writes leads back to where it began. -/
abbrev Settles (program : RunM α) : Prop := Goes .start .start program

/-- It writes nothing. -/
abbrev Waits (program : RunM α) : Prop := Emits (fun _ text => text = "") program

namespace Emits

variable {fits : α → String → Prop} {later all : β → String → Prop} {program : RunM α}

theorem bind {next : α → RunM β} (emits : Emits fits program)
    (goesOn : ∀ value text, fits value text → Emits later (next value))
    (both : ∀ value text result more, fits value text → later result more → all result (text ++ more)) :
    Emits all (program >>= next) := by
  intro state result after tidy done
  obtain ⟨value, middle, ran, followed⟩ := bind_ok done
  obtain ⟨tidy, text, fit, wrote⟩ := emits state value middle tidy ran
  obtain ⟨tidy, more, further, ends⟩ := goesOn value text fit middle result after tidy followed
  exact ⟨tidy, text ++ more, both _ _ _ _ fit further, by rw [ends, wrote, String.append_assoc]⟩

/-- After a part that writes nothing. -/
theorem waiting {next : α → RunM β} (waits : Waits program) (goesOn : ∀ value, Emits later (next value)) :
    Emits later (program >>= next) :=
  waits.bind (fun value _ _ => goesOn value) fun _ _ _ _ none fit => by rwa [none, String.empty_append]

/-- A part that changes only the context. -/
theorem quietly (acts : ∀ state value after, Tidy state.context → program state = (.ok value, after) →
    Tidy after.context ∧ after.sink = state.sink) : Waits program := by
  intro state value after tidy done
  obtain ⟨tidy, same⟩ := acts state value after tidy done
  exact ⟨tidy, "", rfl, by rw [same, String.append_empty]⟩

theorem stays (waits : Waits program) (place : Place) : Goes place place program := by
  intro state value after tidy done
  obtain ⟨tidy, text, none, wrote⟩ := waits state value after tidy done
  exact ⟨tidy, text, none ▸ .empty _, wrote⟩

theorem pure (value : α) : Waits (Pure.pure value : RunM α) := by
  apply quietly
  intro state result after tidy done
  cases done
  exact ⟨tidy, rfl⟩

theorem write {text : String} {fits : Unit → String → Prop} (fit : fits () text) :
    Emits fits (Render.write text) := by
  intro state value after tidy done
  rw [write_eq] at done
  split at done
  · rename_i accepted
    cases done
    refine ⟨tidy, text, fit, ?_⟩
    change (state.sink.write text).2.text = _
    unfold Sink.write at accepted ⊢
    split
    · rfl
    · rename_i refused
      rw [if_neg refused] at accepted
      cases accepted
  · cases done

theorem inContext {action : Context → α × Context} (quiet : Acts Quiet (fun _ _ => True) action)
    (bodies : ∀ {context : Context}, context.Holds Whole → (action context).2.Holds Whole) :
    Waits (Render.inContext action) := by
  apply quietly
  intro state value after tidy done
  cases done
  exact ⟨⟨(quiet _ tidy.toQuiet).1, bodies tidy.mixins⟩, rfl⟩

theorem modifyContext {change : Context → Context} (quiet : Keeps Quiet (fun _ _ => True) change)
    (bodies : ∀ {context : Context}, context.Holds Whole → (change context).Holds Whole) :
    Waits (Render.modifyContext change) := by
  apply quietly
  intro state value after tidy done
  cases done
  exact ⟨⟨(quiet _ tidy.toQuiet).1, bodies tidy.mixins⟩, rfl⟩

theorem asked {action : Context → α × Context} (asked : Asked action) : Waits (Render.inContext action) :=
  inContext (asked.acts quiet_apart) asked.bodies

theorem changed {change : Context → Context} (changed : Changed change) :
    Waits (Render.modifyContext change) :=
  modifyContext (changed.keeps quiet_apart) changed.bodies

theorem step : Waits (Render.inContext Context.step) := inContext quiet_apart.steps step_blind.bodies

theorem note (event : Event) : Waits (Render.note event) := by
  apply quietly
  intro state value after tidy done
  cases done
  exact ⟨tidy, rfl⟩

theorem closing (emits : Emits fits program) : Emits fits (Render.closing program) := by
  intro state value after tidy done
  unfold Render.closing at done
  generalize ran : program state = ended at done
  obtain ⟨result, inner⟩ := ended
  cases done
  obtain ⟨kept, wrote⟩ := emits state value inner tidy ran
  exact ⟨⟨quiet_apart.popScope kept.toQuiet, kept.mixins.popScope⟩, wrote⟩

theorem throw (halt : Halt) : Emits fits (MonadExcept.throw halt) := by
  intro state value after _ done
  cases done

/-- A run that looks at its context. -/
theorem reading {next : Context → RunM α} (emits : ∀ context, Tidy context → Emits fits (next context)) :
    Emits fits (getContext >>= next) := by
  intro state value after tidy done
  rw [bind_eq, getContext_eq] at done
  exact emits state.context tidy state value after tidy done

/-- There is no report to be written. -/
theorem taking {next : List String → RunM β} (emits : Emits later (next [])) :
    Emits later (Render.inContext Context.takePending >>= next) := by
  intro state value after tidy done
  rw [bind_eq, inContext_eq] at done
  have none : state.context.takePending.1 = [] := tidy.idle
  dsimp only at done
  rw [none] at done
  have kept : Tidy state.context.takePending.2 := ⟨quiet_apart.taken tidy.toQuiet, tidy.mixins⟩
  exact emits { state with context := state.context.takePending.2 } value after kept done

theorem flushReports (options : RunOptions) : Waits (Render.flushReports options) := by
  refine .taking (.waiting (.pure ()) fun _ => ?_)
  split
  · refine .reading fun context _ => ?_
    cases context.reports.last with
    | none => exact .pure ()
    | some message =>
      have forgets : Keeps Quiet (fun _ _ => True) Context.forgetLast :=
        fun _ holds => ⟨quiet_apart.forgotten holds, trivial⟩
      exact .waiting (.modifyContext forgets id) fun _ => .throw _
  · exact .pure ()

end Emits

namespace Goes

variable {before between after : Place} {program : RunM α}

theorem bind {next : α → RunM β} (first : Goes before between program)
    (goesOn : ∀ value, Goes between after (next value)) : Goes before after (program >>= next) :=
  Emits.bind first (fun value _ _ => goesOn value) fun _ _ _ _ => Carries.append

/-- What settles by itself may stand in any place outside of tags. -/
theorem of_settles (settles : Settles program) (opened : List (List Char)) :
    Goes ⟨opened, none⟩ ⟨opened, none⟩ program := by
  intro state value last tidy done
  obtain ⟨tidy, text, whole, wrote⟩ := settles state value last tidy done
  exact ⟨tidy, text, whole.anywhere, wrote⟩

/-- The reports of the chunks before are none. -/
theorem afterChain (goes : Goes before after program) (options : RunOptions) (chain : Chain) :
    Goes before after (Render.afterChain options chain program) := by
  have began : Goes before after (do
      Render.note .began
      program) := .waiting (.note .began) fun _ => goes
  unfold Render.afterChain
  split
  · exact .waiting (.flushReports options) fun _ => began
  · exact began

theorem writeValue {place : Place} {text : Value → String} (carries : ∀ value, Carries (text value) place place)
    (expr : Expr) : Goes place place (Render.writeValue expr text) := by
  refine .waiting (.asked (.value expr)) fun value => ?_
  cases value with
  | none => exact (Emits.pure ()).stays place
  | some value => exact .write (carries value)

end Goes

theorem settles_loops : Loops (Twice Settles) where
  pure value := ⟨rfl, (Emits.pure value).stays _⟩
  bind := Twice.bind Goes.bind
  exhausted := ⟨rfl, .throw _⟩
  noted _ := ⟨rfl, (Emits.note _).stays _⟩
  asked asked := ⟨rfl, (Emits.asked asked).stays _⟩
  counted := ⟨rfl, Emits.step.stays _⟩
  changed changed := ⟨rfl, (Emits.changed changed).stays _⟩
  closing := by
    rintro _ _ _ ⟨rfl, settles⟩
    exact ⟨rfl, .closing settles⟩

/-! Mixins. -/

/-- A body that is found is a whole. -/
abbrev Finds (program : RunM (Option (List Chunk))) : Prop :=
  Emits (fun found text => text = "" ∧ ∀ body, found = some body → Whole body) program

theorem finds_none : Finds (pure none) := by
  intro state value after tidy done
  cases done
  exact ⟨tidy, "", ⟨rfl, nofun⟩, (String.append_empty).symm⟩

theorem callMixin_finds {mixin : Mixin} (whole : Whole mixin.body) (arguments : List Value) :
    Finds (callMixin mixin arguments) := by
  refine .waiting .step fun counted => ?_
  cases counted with
  | false => exact finds_none
  | true =>
    refine .waiting (.asked (.enter mixin arguments)) fun entered => ?_
    cases entered with
    | false => exact finds_none
    | true =>
      intro state value after tidy done
      cases done
      refine ⟨tidy, "", ⟨rfl, fun body same => ?_⟩, (String.append_empty).symm⟩
      cases same
      exact whole

theorem enterCall_finds (name : String) (arguments : Option Expr) : Finds (enterCall name arguments) := by
  rw [enterCall_eq]
  refine .reading fun context tidy => ?_
  cases found : context.mixin? name with
  | none => exact .waiting (.changed (.unfound name)) fun _ => finds_none
  | some mixin =>
    have whole := tidy.mixins.mixin? found
    cases arguments with
    | none => exact callMixin_finds whole []
    | some arguments =>
      refine .waiting (.asked (.arguments arguments)) fun values => ?_
      cases values with
      | none => exact finds_none
      | some values => exact callMixin_finds whole values

/-! Chunks. -/

section

variable {again : RunOptions → List Chunk → RunM Unit} {bound : Nat} {options : RunOptions}

/-- A chunk that no alternative goes with, and the chunks after it. -/
theorem goes_alone {chunk : Chunk} {rest : List Chunk} {before between after : Place} {chain : Chain}
    (one : Goes before between (runChunk again bound options chunk))
    (further : ∀ chain, Goes between after (runChunks again bound options chain rest))
    (untaken : chain.takes chunk = false) (closes : chunk.opensChain = false) :
    Goes before after (runChunks again bound options chain (chunk :: rest)) := by
  rw [runChunks_alone again bound options untaken closes]
  exact .afterChain (.bind one fun _ => .waiting (.flushReports options) fun _ => further _) options chain

theorem calling_settles (calls : ∀ options chunks, Whole chunks → Settles (again options chunks))
    (name : String) (arguments : Option Expr) :
    Settles (runChunk again bound options (.mixinCall name arguments)) := by
  unfold runChunk
  apply @Emits.bind _ _ _ (fun _ text => Carries text .start .start) _ _ _ (enterCall_finds name arguments)
  · rintro found _ ⟨-, whole⟩
    cases found with
    | none => exact (Emits.pure ()).stays _
    | some body =>
      exact .closing (.waiting (.note .entered) fun _ =>
        .waiting (.note .stepped) fun _ => calls options body (whole body rfl))
  · rintro _ _ _ _ ⟨rfl, -⟩ carries
    rwa [String.empty_append]

theorem runInner_goes (calls : ∀ options chunks, Whole chunks → Settles (again options chunks)) {chunk : Chunk}
    (is : chunk.isInner = true) (opened : List (List Char)) :
    Goes ⟨opened, none⟩ ⟨opened, none⟩ (runChunk again bound options chunk) := by
  have escaped (content : String) : Carries (Entities.escape content) ⟨opened, none⟩ ⟨opened, none⟩ :=
    .outside (isClean_escape content)
  cases chunk with
  | output escape expr =>
    cases escape with
    | false => cases is
    | true =>
      unfold runChunk
      refine .reading fun context tidy => ?_
      rw [tidy.escapes]
      exact Goes.writeValue (fun value => escaped value.printed) expr
  | escapable content =>
    unfold runChunk
    refine .reading fun context tidy => ?_
    rw [tidy.escapes]
    exact .write (escaped content)
  | code expr =>
    unfold runChunk
    exact .waiting (.asked (.evaluate expr)) fun _ => (Emits.pure ()).stays _
  | mixinCall name arguments => exact .of_settles (calling_settles calls name arguments) opened
  | _ => cases is

theorem runChunks_goes (calls : ∀ options chunks, Whole chunks → Settles (again options chunks))
    {before after : Place} {chunks : List Chunk} (leads : Leads before chunks after) :
    (∀ chain, Goes before after (runChunks again bound options chain chunks)) ∧
      ∀ subject matched, Settles (runBranches again bound options subject matched chunks) := by
  have steers := settles_loops.steers
  have seen (expr : Expr) : Sees (fun _ => True) expr := fun _ _ => trivial
  induction leads with
  | nil place =>
    refine ⟨fun chain => ?_, fun subject matched => ?_⟩
    · rw [runChunks_nil]
      split
      · exact (Emits.flushReports options).stays place
      · exact (Emits.pure ()).stays place
    · unfold runBranches
      exact (steers.pure ()).2
  | text carries _ step =>
    refine ⟨fun chain => ?_, fun subject matched => ?_⟩
    · refine goes_alone ?_ step.1 (by cases chain <;> rfl) rfl
      unfold runChunk
      exact .write carries
    · unfold runBranches
      exact step.2 subject matched
  | @attr name expr rest opened tag after bare _ step =>
    refine ⟨fun chain => ?_, fun subject matched => ?_⟩
    · refine goes_alone ?_ step.1 (by cases chain <;> rfl) rfl
      unfold runChunk
      exact Goes.writeValue (fun value => .markup bare value) expr
    · unfold runBranches
      exact step.2 subject matched
  | @inner chunk rest opened after is _ step =>
    refine ⟨fun chain => ?_, fun subject matched => ?_⟩
    · refine goes_alone (runInner_goes calls is opened) step.1 ?_ ?_
      · cases chunk <;> first | (cases chain <;> rfl) | cases is
      · cases chunk <;> first | rfl | cases is
    · unfold runBranches
      cases chunk <;> first | exact step.2 subject matched | cases is
  | @block chunk rest opened after is whole _ body step =>
    have entered : Settles (entering chunk.body (runChunks again bound options .closed chunk.body)) :=
      (steers.chooses.entering rfl ⟨rfl, body.1 .closed⟩).2
    have branched (guard : Expr) (negate : Bool) :=
      Goes.of_settles (steers.chooses.branch (seen guard) negate ⟨rfl, entered⟩).2 opened
    refine ⟨fun chain => ?_, fun subject matched => ?_⟩
    · have alone (one : Settles (runChunk again bound options chunk)) (untaken : chain.takes chunk = false)
          (closes : chunk.opensChain = false) :=
        goes_alone (.of_settles one opened) step.1 untaken closes
      have nothing : Settles (pure () : RunM Unit) := (Emits.pure ()).stays _
      have others (chain : Chain) := Emits.waiting (.flushReports options) fun _ => step.1 chain
      cases chunk with
      | ifBlock guard inside =>
        rw [runChunks_if]
        exact .afterChain (.bind (branched guard false) fun _ => step.1 _) options chain
      | unlessBlock guard inside =>
        rw [runChunks_unless]
        exact .afterChain (.bind (branched guard true) fun _ => step.1 _) options chain
      | eachBlock item key source inside =>
        have looped := steers.inScope (steers.looped (seen source) item key (rest.head?.any Chunk.isElse)
          ⟨rfl, entered⟩)
        rw [runChunks_each]
        exact .afterChain (.bind (.of_settles looped.2 opened) fun _ => step.1 _) options chain
      | elseIfBlock guard inside =>
        cases chain with
        | conditions done =>
          rw [runChunks_elseIf]
          cases done with
          | true => exact .waiting (.pure true) fun _ => step.1 _
          | false =>
            exact .waiting (.note .entered) fun _ => Goes.bind (branched guard false) fun _ => step.1 _
        | _ => exact alone (by unfold runChunk; exact nothing) rfl rfl
      | elseBlock inside =>
        cases isOpen : chain.isOpen with
        | true =>
          rw [runChunks_else again bound options isOpen]
          cases chain.isDone with
          | true => exact others _
          | false => exact .bind (.of_settles (steers.inScope ⟨rfl, entered⟩).2 opened) fun _ => others _
        | false =>
          cases chain with
          | closed => exact alone (by unfold runChunk; exact nothing) rfl rfl
          | _ => cases isOpen
      | caseBlock subject branches =>
        have chosen := steers.inScope (steers.bind (steers.chooses.value (seen subject)) fun value =>
          ⟨rfl, body.2 value false⟩)
        refine alone ?_ (by cases chain <;> rfl) rfl
        unfold runChunk
        exact chosen.2
      | whileBlock guard inside =>
        refine alone ?_ (by cases chain <;> rfl) rfl
        unfold runChunk
        exact (settles_loops.whileStep ⟨rfl, entered⟩ guard bound).2
      | mixin name signature inside =>
        refine alone ?_ (by cases chain <;> rfl) rfl
        unfold runChunk
        exact (Emits.modifyContext (quiet_apart.defines name signature inside)
          fun holds => holds.define name signature whole).stays _
      | whenBlock value inside => exact alone (by unfold runChunk; exact nothing) (by cases chain <;> rfl) rfl
      | defaultBlock inside => exact alone (by unfold runChunk; exact nothing) (by cases chain <;> rfl) rfl
      | _ => cases is
    · cases chunk with
      | whenBlock value inside =>
        have chosen (matched : Bool) : Settles (if matched && !inside.isEmpty then
            entering inside (runChunks again bound options .closed inside)
          else runBranches again bound options subject matched rest) := by
          split
          · exact entered
          · exact step.2 subject matched
        unfold runBranches
        cases matched with
        | true => exact .waiting (.pure true) chosen
        | false =>
          exact .waiting (.note .entered) fun _ =>
            Goes.bind (steers.chooses.value (seen value)).2 fun _ => .waiting (.pure _) chosen
      | defaultBlock inside =>
        unfold runBranches
        split
        · exact step.2 subject matched
        · exact entered
      | _ =>
        unfold runBranches
        exact step.2 subject matched

/-- What runs of wholes write closes all it opens. -/
theorem run_settles (bound : Nat) (options : RunOptions) {chunks : List Chunk} (whole : Whole chunks) :
    Settles (Render.run bound options chunks) := by
  induction bound generalizing options chunks with
  | zero => exact .throw _
  | succ bound step => exact (runChunks_goes (fun options _ whole => step options whole) whole).1 .closed

end

/-! Compiled templates. -/

theorem compile_whole (fold : Expr → Option Value) (pretty : Bool) {root : Token}
    (formed : ∀ line ∈ root.children, line.Formed) (tagged : Tagged root) {chunks : List Chunk}
    {includes : List String} (compiled : compile fold pretty root = .ok (chunks, includes)) : Whole chunks := by
  have balances := block_balances fold { pretty, depth := 0 } false none root.children formed tagged.inner
  rw [Building.compile_eq] at compiled
  cases ran : block fold { pretty, depth := 0 } false none root.children Builder.empty with
  | error error =>
    rw [ran] at compiled
    cases compiled
  | ok result =>
    obtain ⟨⟨⟩, after⟩ := result
    rw [ran] at compiled
    cases compiled
    exact balances [] Builder.empty after ran .start (.nil _)

theorem template_whole {options : TemplateOptions} {source : List Char} {root : Token} {template : Template}
    (read : Token.ofSource source = .ok root) (tagged : Tagged root)
    (compiled : Template.ofSource options source = .ok template) : Whole template.chunks := by
  unfold Template.ofSource Template.ofSourceWith at compiled
  rw [read] at compiled
  dsimp only at compiled
  cases built : compile Expr.constant? options.pretty root with
  | error error =>
    rw [built] at compiled
    cases compiled
  | ok result =>
    obtain ⟨chunks, includes⟩ := result
    rw [built] at compiled
    cases compiled
    exact compile_whole _ _ (ofSource_formed read) tagged built

/-- A run that comes to its end has written tags that are properly nested, and none of them in part. It
leaves a context for which the same is true of the next template. -/
theorem output_nested {options : TemplateOptions} {source : List Char} {root : Token} {template : Template}
    (read : Token.ofSource source = .ok root) (tagged : Tagged root)
    (compiled : Template.ofSource options source = .ok template) {bound : Nat} {context : Context} {sink : Sink}
    (tidy : Tidy context) (done : (template.run bound context sink).1 = .ok ()) :
    ∃ text, (template.run bound context sink).2.sink.text = sink.text ++ text ∧ isNested text = true ∧
      Tidy (template.run bound context sink).2.context := by
  have settles := run_settles bound template.runOptions (template_whole read tagged compiled)
  have ready : Tidy context.forgetLast := ⟨quiet_apart.forgotten tidy.toQuiet, tidy.mixins⟩
  obtain ⟨after, text, carries, wrote⟩ := settles { context := context.forgetLast, sink } () _ ready
    (Prod.ext done rfl)
  refine ⟨text, wrote, (isNested_iff text).mpr ?_, after⟩
  obtain ⟨later, ends, reads⟩ := carries [] ⟨[], none⟩ (.outside [])
  cases ends
  have read := reads [] ⟨[], rfl, rfl⟩
  rwa [List.append_nil] at read

/-! Runs of some templates. -/

def defaults : TemplateOptions := { pretty := false, stopOnError := false }

/-- A template is of tags, it compiles, its run comes to its end and has this output. -/
def Outputs (source : List Char) (context : Context) (output : String) : Prop :=
  ∃ root template, Token.ofSource source = .ok root ∧ Tagged root ∧
    Template.ofSource defaults source = .ok template ∧
    (template.run 20 context .unlimited).1 = .ok () ∧ (template.run 20 context .unlimited).2.sink.text = output

/-- The output of a template, if it is of tags and its run comes to its end. -/
def output? (source : List Char) (context : Context) : Option String :=
  (Token.ofSource source).toOption.bind fun root =>
    (Template.ofSource defaults source).toOption.bind fun template =>
      let ended := template.run 20 context .unlimited
      if root.everyPart Token.isTagged && ended.1.isOk then some ended.2.sink.text else none

theorem outputs_of_output? {source : List Char} {context : Context} {output : String}
    (found : output? source context = some output) : Outputs source context output := by
  unfold output? at found
  cases read : Token.ofSource source with
  | error error =>
    rw [read] at found
    cases found
  | ok root =>
    cases compiled : Template.ofSource defaults source with
    | error error =>
      rw [read, compiled] at found
      cases found
    | ok template =>
      rw [read, compiled] at found
      obtain ⟨good, text⟩ := Option.ite_none_right_eq_some.mp found
      obtain ⟨tagged, ended⟩ := Bool.and_eq_true_iff.mp good
      refine ⟨root, template, read, tagged, compiled, ?_, Option.some.inj text⟩
      cases done : (template.run 20 context .unlimited).1 with
      | error halt =>
        rw [done] at ended
        cases ended
      | ok => rfl

/-- Rows of a list, of which some are made by a mixin. -/
def listing : List Char :=
  ("mixin row(x)\n  li(title=x)= x\n" ++
    "ul.list\n  each v in [1, \"<2>\"]\n    if v == 1\n      +row(v)\n    else\n      li: br/").toList

theorem listing_output : output? listing Context.new.listened =
    some "<ul class=\"list\"><li title=\"1\">1</li><li><br/></li></ul>" := by
  unfold listing
  rw [String.toList_append, String.toList_ofList, String.toList_ofList]
  decide +kernel

theorem tidy_new : Tidy Context.new.listened where
  escapes := rfl
  taken := rfl
  idle := rfl
  mixins := by
    intro frame member
    cases List.mem_singleton.mp member
    nofun

theorem listing_nested : ∃ root template, Token.ofSource listing = .ok root ∧ Tagged root ∧
    Template.ofSource defaults listing = .ok template ∧ Tidy Context.new.listened ∧
    (template.run 20 Context.new.listened .unlimited).1 = .ok () ∧
    isNested "<ul class=\"list\"><li title=\"1\">1</li><li><br/></li></ul>" = true := by
  obtain ⟨root, template, read, tagged, compiled, done, output⟩ := outputs_of_output? listing_output
  obtain ⟨text, wrote, nested, -⟩ := output_nested read tagged compiled tidy_new done
  rw [output] at wrote
  refine ⟨root, template, read, tagged, compiled, tidy_new, done, ?_⟩
  rw [wrote]
  exact String.empty_append.symm ▸ nested

/-- What is left when a template with a mixin has been run whose body is a raw line. -/
def leftover : Context :=
  ((Template.ofSource defaults "mixin m\n  <b>".toList).toOption.map fun template =>
    (template.run 20 Context.new.listened .unlimited).2.context).getD .new

theorem leftover_output : output? "+m".toList leftover = some "<b>" := by
  decide +kernel

theorem leftover_quiet : leftover.escapeOutput = true ∧ leftover.reports.taken = some [] ∧
    leftover.reports.pending = [] := by
  decide +kernel

/-- The host takes the reports after one that waits. -/
def belated : Context := (Context.new.report "--><b>").listened

theorem belated_output : output? "p".toList belated = some "<p></p><!-- Context error: --><b> -->" := by
  decide +kernel

/-- A mixin of an earlier template may write what it likes, and so may a report that waits. -/
theorem leftovers_unbalanced :
    (Outputs "+m".toList leftover "<b>" ∧ leftover.escapeOutput = true ∧
      leftover.reports.taken.isSome = true ∧ isNested "<b>" = false) ∧
    (Outputs "p".toList belated "<p></p><!-- Context error: --><b> -->" ∧ belated.escapeOutput = true ∧
      belated.reports.taken.isSome = true ∧ isNested "<p></p><!-- Context error: --><b> -->" = false) := by
  refine ⟨⟨outputs_of_output? leftover_output, leftover_quiet.1, ?_, by decide⟩,
    outputs_of_output? belated_output, rfl, rfl, by decide⟩
  rw [leftover_quiet.2.1]
  rfl

end HtmlTemplate.Tags
