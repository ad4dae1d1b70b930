import HtmlTemplate.Proofs.Stopping.Bodies
import HtmlTemplate.Template.Source

/-! A template that stops at errors ends at its first report unless, after that, a body is run
or an alternative is asked for. -/

namespace HtmlTemplate.Stopping

variable {stops : Bool} {made : Nat} {told : Bool} {α : Type}
  {again : RunOptions → List Chunk → RunM Unit}

/-- What is asked for once an alternative has not been taken. -/
theorem afterChain_quiet {options : RunOptions} (chain : Render.Chain) {part : RunM α}
    {ends : Phase → α → Prop} (leads : Leads stops made told .quiet part ends) :
    Leads stops made told .quiet (Render.afterChain options chain part) ends := by
  have began : Leads stops made told .quiet (do
      Render.note .began
      part) ends := by
    apply Leads.after (Reaches.note .began)
    rintro _ _ rfl
    exact leads
  unfold Render.afterChain
  cases chain.isOpen with
  | true =>
    apply Leads.after (flush_quiet options)
    rintro _ _ rfl
    exact began
  | false => exact began

theorem afterChain_warned {options : RunOptions} {chain : Render.Chain} (isOpen : chain.isOpen = true)
    {part : RunM α} (goes : Goes options.stopOnError made part) {ends : Phase → α → Prop} :
    Leads options.stopOnError made told .warned (Render.afterChain options chain part) ends := by
  unfold Render.afterChain
  rw [isOpen]
  apply Leads.bind (flush_warned options)
  · intro _
    have kept := passed_kept options.stopOnError made
    exact .bind kept.growth (.note kept .began) fun _ => goes
  · exact fun _ _ never => never.elim

/-- Chunks settle all reports; when one has been made by the chunk before them, they write it
and nothing else. -/
structure Settles (made : Nat) (told : Bool) (again : RunOptions → List Chunk → RunM Unit)
    (bound : Nat) (options : RunOptions) (chain : Render.Chain) (chunks : List Chunk) : Prop where
  quiet : Leads options.stopOnError made told .quiet
    (Render.runChunks again bound options chain chunks) Still
  warned : chain.isOpen = true → Leads options.stopOnError made told .warned
    (Render.runChunks again bound options chain chunks) Never

namespace Settles

variable {bound : Nat} {options : RunOptions} {chain : Render.Chain} {chunks : List Chunk}

theorem goes (go : Rules.AllStay (Passed stops made) (fun _ _ => True) again) (bound : Nat)
    (options : RunOptions) (chain : Render.Chain) (chunks : List Chunk) :
    Goes stops made (Render.runChunks again bound options chain chunks) :=
  Rules.runChunks_stays (passed_kept stops made) go bound options chain chunks

/-- The rest of the chunks, after a part that may have failed. -/
theorem once (settles : Settles made told again bound options chain chunks)
    (isOpen : chain.isOpen = true) {start : Phase} (once : start ≠ .late) :
    Leads options.stopOnError made told start
      (Render.runChunks again bound options chain chunks) Still := by
  cases start with
  | quiet => exact settles.quiet
  | warned => exact (settles.warned isOpen).weaken fun _ _ never => never.elim
  | late => exact absurd rfl once

theorem body (settles : Settles made told again bound options .closed chunks)
    (go : Rules.AllStay (Passed options.stopOnError made) (fun _ _ => True) again) :
    Body options.stopOnError made told
      (Render.entering chunks (Render.runChunks again bound options .closed chunks)) := by
  have goes := goes go bound options .closed chunks
  refine ⟨.entering (passed_kept _ made) chunks goes, fun once => ?_⟩
  apply Leads.entering goes settles.quiet _ once
  rintro rfl
  rw [Render.runChunks_nil]
  rfl

theorem of_afterChain {part : RunM Unit}
    (eq : Render.runChunks again bound options chain chunks = Render.afterChain options chain part)
    (goes : Goes options.stopOnError made part)
    (leads : Leads options.stopOnError made told .quiet part Still) :
    Settles made told again bound options chain chunks := by
  refine ⟨?_, fun isOpen => ?_⟩
  · rw [eq]
    exact afterChain_quiet chain leads
  · rw [eq]
    exact afterChain_warned isOpen goes

end Settles

mutual

theorem runChunks_settles {options : RunOptions}
    (go : Rules.AllStay (Passed options.stopOnError made) (fun _ _ => True) again)
    (settle : AllSettle made told again) (bound : Nat) (chain : Render.Chain) (chunks : List Chunk) :
    Settles made told again bound options chain chunks := by
  have kept := passed_kept options.stopOnError made
  cases chunks with
  | nil =>
    refine ⟨?_, fun isOpen => ?_⟩
    · rw [Render.runChunks_nil]
      split
      · exact (flush_quiet options).leads
      · exact .pure rfl
    · rw [Render.runChunks_nil, if_pos isOpen]
      exact flush_warned options
  | cons chunk rest =>
    have further (chain : Render.Chain) := runChunks_settles go settle bound chain rest
    have goes (chain : Render.Chain) := Settles.goes go bound options chain rest
    have one := runChunk_once go settle bound chunk
    have alone (untaken : chain.takes chunk = false) (closes : chunk.opensChain = false) :
        Settles made told again bound options chain (chunk :: rest) := by
      have ends : Goes options.stopOnError made (do
          Render.flushReports options
          Render.runChunks again bound options .closed rest) :=
        .bind kept.growth (.flushReports kept options) fun _ => goes _
      apply Settles.of_afterChain (Render.runChunks_alone again bound options untaken closes rest)
      · exact .bind kept.growth (Rules.runChunk_stays kept go bound options chunk) fun _ => ends
      · apply Leads.bind one fun _ => ends
        intro phase _ once
        exact Leads.flush options once (goes .closed) fun _ => (further .closed).quiet
    cases chunk with
    | ifBlock guard body =>
      have inner := (runChunks_settles go settle bound .closed body).body go
      apply Settles.of_afterChain (Render.runChunks_if again bound options chain guard body rest)
      · exact .bind kept.growth (.branch kept guard false inner.goes) fun _ => goes _
      · apply Leads.bind (inner.branch guard false) fun _ => goes _
        intro phase chosen once
        exact (further (.conditions chosen)).once rfl once
    | unlessBlock guard body =>
      have inner := (runChunks_settles go settle bound .closed body).body go
      apply Settles.of_afterChain (Render.runChunks_unless again bound options chain guard body rest)
      · exact .bind kept.growth (.branch kept guard true inner.goes) fun _ => goes _
      · apply Leads.bind (inner.branch guard true) fun _ => goes _
        intro phase chosen once
        exact (further (.single chosen)).once rfl once
    | eachBlock item key source body =>
      have inner := (runChunks_settles go settle bound .closed body).body go
      apply Settles.of_afterChain (Render.runChunks_each again bound options chain item key source body rest)
      · exact .bind kept.growth (.inScope kept (.loop kept item key source _ inner.goes)) fun _ => goes _
      · apply Leads.bind (inner.loop item key source _).inScope fun _ => goes _
        intro phase iterated once
        exact (further (.single iterated)).once rfl once
    | elseIfBlock guard body =>
      have inner := (runChunks_settles go settle bound .closed body).body go
      cases chain with
      | conditions done =>
        cases done with
        | true => exact ⟨(further (.conditions true)).quiet, (further (.conditions true)).warned⟩
        | false =>
          refine ⟨?_, fun _ => ?_⟩
          · rw [Render.runChunks_elseIf]
            apply Leads.after (Reaches.note .entered)
            rintro _ _ rfl
            apply Leads.bind (inner.branch guard false) fun _ => goes _
            intro phase chosen once
            exact (further (.conditions chosen)).once rfl once
          · rw [Render.runChunks_elseIf]
            refine Leads.bind (.note_entered nofun) (fun _ => ?_) fun _ _ never => never.elim
            exact .bind kept.growth (.branch kept guard false inner.goes) fun _ => goes _
      | _ => exact alone rfl rfl
    | elseBlock body =>
      have inner := (runChunks_settles go settle bound .closed body).body go
      cases isOpen : chain.isOpen with
      | true =>
        have ends : Goes options.stopOnError made (do
            Render.flushReports options
            Render.runChunks again bound options .closed rest) :=
          .bind kept.growth (.flushReports kept options) fun _ => goes _
        have closes (start : Phase) (once : start ≠ .late) {last : Phase → Unit → Prop}
            (further : start = .quiet → Leads options.stopOnError made told .quiet
              (Render.runChunks again bound options .closed rest) last) :
            Leads options.stopOnError made told start
              (Render.runChunks again bound options chain (.elseBlock body :: rest)) last := by
          rw [Render.runChunks_else again bound options isOpen]
          cases chain.isDone with
          | true => exact Leads.flush options once (goes .closed) further
          | false =>
            apply Leads.bind (inner.inScope.leads once) fun _ => ends
            rintro _ _ rfl
            exact Leads.flush options once (goes .closed) further
        exact ⟨closes .quiet nofun fun _ => (further .closed).quiet, fun _ => closes .warned nofun nofun⟩
      | false =>
        cases chain with
        | closed => exact alone rfl rfl
        | _ => cases isOpen
    | _ => exact alone (by cases chain <;> rfl) rfl
termination_by structural chunks

theorem runChunk_once {options : RunOptions}
    (go : Rules.AllStay (Passed options.stopOnError made) (fun _ _ => True) again)
    (settle : AllSettle made told again) (bound : Nat) (chunk : Chunk) :
    Leads options.stopOnError made told .quiet (Render.runChunk again bound options chunk) Once := by
  cases chunk with
  | text content =>
    unfold Render.runChunk
    exact (Reaches.write content).leads.weaken once_of_still
  | output escape expr =>
    unfold Render.runChunk
    apply Leads.after .getContext
    rintro _ context rfl
    exact writeValue_once expr _
  | escapable content =>
    unfold Render.runChunk
    apply Leads.after .getContext
    rintro _ context rfl
    exact (Reaches.write _).leads.weaken once_of_still
  | attr escape name expr =>
    unfold Render.runChunk
    exact writeValue_once expr _
  | attrs expr =>
    unfold Render.runChunk
    exact writeValue_once expr _
  | code expr =>
    unfold Render.runChunk
    apply Leads.after (evaluate_speaks .strict expr).reaches
    intro phase handle failing
    exact .pure (once_of_failing phase handle failing)
  | caseBlock subject branches =>
    unfold Render.runChunk
    apply Leads.inScope
    apply Leads.after (execValue_speaks subject).reaches
    intro phase value failing
    exact runBranches_once go settle bound value false branches (once_of_failing phase value failing)
  | whileBlock guard body =>
    unfold Render.runChunk
    exact ((runChunks_settles go settle bound .closed body).body go).whileStep guard bound
  | includeTemplate name depth =>
    unfold Render.runChunk
    exact (runInclude_still settle options name depth).weaken once_of_still
  | mixin name signature body =>
    unfold Render.runChunk
    apply Reaches.leads
    apply Reaches.modifyContext
    intro context quiet
    rcases define_reports name signature body context with same | ⟨fault, one⟩
    · refine ⟨.quiet, ?_, nofun⟩
      rw [same]
      exact quiet
    · refine ⟨.warned, ?_, nofun⟩
      rw [one]
      exact quiet.warned fault
  | mixinCall name arguments =>
    unfold Render.runChunk
    exact mixinCall_once name arguments (go options) (settle options)
  | _ =>
    unfold Render.runChunk
    exact .pure nofun
termination_by structural chunk

theorem runBranches_once {options : RunOptions}
    (go : Rules.AllStay (Passed options.stopOnError made) (fun _ _ => True) again)
    (settle : AllSettle made told again) (bound : Nat) (subject : Value) (matched : Bool)
    (branches : List Chunk) {start : Phase} (once : start ≠ .late) :
    Leads options.stopOnError made told start
      (Render.runBranches again bound options subject matched branches) Once := by
  have kept := passed_kept options.stopOnError made
  cases branches with
  | nil =>
    unfold Render.runBranches
    exact .pure once
  | cons branch rest =>
    have further (matched : Bool) {start : Phase} (once : start ≠ .late) :=
      runBranches_once go settle bound subject matched rest once
    cases branch with
    | whenBlock value body =>
      have inner := (runChunks_settles go settle bound .closed body).body go
      have chosen (matched : Bool) {start : Phase} (once : start ≠ .late) :
          Leads options.stopOnError made told start
            (if matched && !body.isEmpty then
              Render.entering body (Render.runChunks again bound options .closed body)
            else Render.runBranches again bound options subject matched rest) Once := by
        split
        · exact (inner.leads once).weaken fun _ _ same => same ▸ once
        · exact further matched once
      have goes (matched : Bool) : Goes options.stopOnError made
          (if matched && !body.isEmpty then
            Render.entering body (Render.runChunks again bound options .closed body)
          else Render.runBranches again bound options subject matched rest) := by
        split
        · exact inner.goes
        · exact Rules.runBranches_stays kept go bound options subject matched rest
      unfold Render.runBranches
      cases matched with
      | true => exact chosen true once
      | false =>
        cases start with
        | quiet =>
          apply Leads.after (Reaches.note .entered)
          rintro _ _ rfl
          apply Leads.after (execValue_speaks value).reaches
          intro phase found failing
          exact chosen _ (once_of_failing phase found failing)
        | warned =>
          refine Leads.bind (.note_entered nofun) (fun _ => ?_) fun _ _ never => never.elim
          exact .bind kept.growth
            (.inContext fun state => Rules.execValue_acts (kept.within state) value)
            fun found => goes (found.eq subject)
        | late => exact absurd rfl once
    | defaultBlock body =>
      have inner := (runChunks_settles go settle bound .closed body).body go
      unfold Render.runBranches
      split
      · exact further matched once
      · exact (inner.leads once).weaken fun _ _ same => same ▸ once
    | _ =>
      unfold Render.runBranches
      exact further matched once
termination_by structural branches

end

theorem run_settles (made : Nat) (told : Bool) (bound : Nat) : AllSettle made told (Render.run bound) := by
  induction bound with
  | zero => exact fun _ _ state reached => .halted nofun reached
  | succ bound step =>
    intro options chunks
    have kept := passed_kept options.stopOnError made
    exact (runChunks_settles (Rules.run_stays kept bound) step bound .closed chunks).quiet

/-- A run from a state where `made` reports have been made: either it makes none and is not
stopped, or it makes one, does nothing after it but to write its comment, and is stopped. -/
def StopsAtOnce (made : Nat) (told : Bool) (run : Except Halt Unit × RunState) : Prop :=
  ((∀ message, run.1 ≠ .error (.stopped message)) ∧ run.2.context.reports.made = made ∧
      ∀ event ∈ run.2.past, event.1 = made) ∨
    ∃ message, run.1 = .error (.stopped message) ∧ Stopped made told message run.2

theorem template_settles (template : Template) (bound : Nat) {context : Context} {sink : Sink}
    (idle : context.reports.pending = []) (endless : sink.limit = none) (whole : sink.broken = false) :
    Outcome template.stopOnError context.reports.made context.reports.taken.isSome Still
      (template.run bound context sink) :=
  run_settles _ _ bound template.runOptions template.chunks _
    ⟨⟨rfl, idle, rfl, rfl⟩, .inr ⟨endless, whole, nofun⟩⟩

/-- A template that stops at errors stops at its first report, made outside of the templates
that it includes, just when after that no body is run and no alternative asked for. -/
theorem stopsAtOnce_iff (template : Template) (bound : Nat) (context : Context) (sink : Sink)
    (stops : template.stopOnError = true) (idle : context.reports.pending = [])
    (endless : sink.limit = none) (whole : sink.broken = false)
    (outside : ∀ event ∈ (template.run bound context sink).2.past, event.2 = .left →
      event.1 ≤ context.reports.made) :
    StopsAtOnce context.reports.made context.reports.taken.isSome (template.run bound context sink) ↔
      ∀ event ∈ (template.run bound context sink).2.past, event.2 = .entered →
        event.1 ≤ context.reports.made := by
  have outcome := template_settles template bound idle endless whole
  rw [stops] at outcome
  generalize template.run bound context sink = run at outside outcome
  constructor
  · rintro (⟨-, -, before⟩ | ⟨message, -, stopped⟩) event member entered
    · exact Nat.le_of_eq (before event member)
    · obtain ⟨before, eq, earlier⟩ := stopped.nothingElse
      rw [eq] at member
      rcases List.mem_append.mp member with comment | member
      · split at comment
        · cases comment
        · cases List.mem_singleton.mp comment
          cases entered
      · exact Nat.le_of_eq (earlier event member)
  · intro unentered
    cases outcome with
    | passed passed =>
      rcases passed with ⟨event, member, later, entered | left⟩ | ⟨goesOn, -⟩
      · exact absurd later (Nat.not_lt.mpr (unentered event member entered))
      · exact absurd later (Nat.not_lt.mpr (outside event member left))
      · cases goesOn
    | stopped stopped => exact .inr ⟨_, rfl, stopped⟩
    | halted other still =>
      have fresh := still.fresh.resolve_left nofun
      refine .inl ⟨?_, still.fits.same, fresh.before⟩
      rintro message ⟨⟩
      exact other message rfl
    | ended reached still =>
      cases still
      have fresh := reached.fresh.resolve_left nofun
      exact .inl ⟨nofun, reached.fits.same, fresh.before⟩

/-- A value that cannot be evaluated, between two texts. -/
def interrupted : Template where
  chunks := [.text "a", .output true (.binary .divide (.literal (.int 1)) (.literal (.int 0))), .text "b"]
  includes := []
  pretty := false
  stopOnError := true

theorem interrupted_past :
    (interrupted.run 1 .new .unlimited).2.past =
      [(1, .wrote "<!-- Context error: Division by zero -->"), (0, .began), (0, .wrote "a"), (0, .began)] := by
  decide +kernel

theorem interrupted_stops :
    interrupted.stopOnError = true ∧ Context.new.reports.pending = [] ∧
    (∀ event ∈ (interrupted.run 1 .new .unlimited).2.past, event.2 = .left → event.1 ≤ 0) ∧
    (∀ event ∈ (interrupted.run 1 .new .unlimited).2.past, event.2 = .entered → event.1 ≤ 0) ∧
    StopsAtOnce 0 false (interrupted.run 1 .new .unlimited) := by
  have outside : ∀ event ∈ (interrupted.run 1 .new .unlimited).2.past, event.2 = .left → event.1 ≤ 0 := by
    rw [interrupted_past]
    decide
  have unentered : ∀ event ∈ (interrupted.run 1 .new .unlimited).2.past,
      event.2 = .entered → event.1 ≤ 0 := by
    rw [interrupted_past]
    decide
  refine ⟨rfl, rfl, outside, unentered, ?_⟩
  exact (stopsAtOnce_iff interrupted 1 .new .unlimited rfl rfl rfl rfl outside).mpr unentered

/-- A condition that cannot be evaluated, with an alternative. -/
def undecided : List Char := "if 1 / 0\n  | a\nelse\n  | b".toList

theorem undecided_past :
    (Template.ofSource { pretty := false, stopOnError := true } undecided).toOption.map
      (fun template => (template.run 1 .new .unlimited).2.past) =
    some [(1, .wrote "<!-- Context error: Division by zero -->"), (1, .wrote "b"), (1, .began),
      (1, .entered), (0, .began)] := by
  decide +kernel

/-- The alternative is run after the report of the condition. -/
theorem undecided_goes_on : ∃ template,
    Template.ofSource { pretty := false, stopOnError := true } undecided = .ok template ∧
      ¬ StopsAtOnce 0 false (template.run 1 .new .unlimited) := by
  have past := undecided_past
  cases compiled : Template.ofSource { pretty := false, stopOnError := true } undecided with
  | error error =>
    rw [compiled] at past
    cases past
  | ok template =>
    rw [compiled] at past
    have past : (template.run 1 .new .unlimited).2.past = _ := Option.some.inj past
    refine ⟨template, rfl, ?_⟩
    rintro (⟨-, -, before⟩ | ⟨message, -, stopped⟩)
    · rw [past] at before
      exact absurd (before _ (List.mem_cons_self ..)) (by decide)
    · obtain ⟨before, eq, earlier⟩ := stopped.nothingElse
      rw [past] at eq
      change _ :: _ = (0 + 1, Event.wrote (Render.comment message)) :: before at eq
      rw [← (List.cons.inj eq).2] at earlier
      exact absurd (earlier _ (List.mem_cons_self ..)) (by decide)

end HtmlTemplate.Stopping
