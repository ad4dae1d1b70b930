import HtmlTemplate.Proofs.Reporting.Comments

/-! Whole runs, for a host that takes no reports: one comment for each report, and none left over. -/

namespace HtmlTemplate.Reporting

open Rules Render

/-! No report waits at the end of a chunk. -/

/-- Whether the run has ended or not, what waited has been taken. -/
theorem flushReports_drains (options : RunOptions) (state : RunState) :
    (flushReports options state).2.context.reports.pending = [] := by
  have growth : Growth fun _ _ : RunState => True := ⟨fun _ => trivial, fun _ _ => trivial⟩
  have wrote (text : String) :
      Stays (fun state : RunState => state.context.reports.pending = []) (fun _ _ => True) (write text) := by
    intro state drained
    rw [write_eq]
    split
    · exact ⟨drained, trivial⟩
    · exact ⟨drained, trivial⟩
  have stops : Stays (fun state : RunState => state.context.reports.pending = []) (fun _ _ => True)
      (if options.stopOnError then stopping else pure ()) := by
    split
    · apply Stays.bind growth (.of_unchanged growth fun _ => rfl)
      intro context
      split
      · exact .pure growth ()
      · exact .bind growth (fun _ drained => ⟨drained, trivial⟩) fun _ => .throw growth _
    · exact .pure growth ()
  have rest := Stays.bind growth
    (Stays.forM growth (fun message => wrote (comment message)) state.context.reports.pending) fun _ => stops
  exact (rest { state with context := state.context.takePending.2 } rfl).1

theorem afterChain_ok {options : RunOptions} {chain : Chain} {part : RunM Unit} {state after : RunState}
    (done : afterChain options chain part state = (.ok (), after)) :
    ∃ middle, part middle = (.ok (), after) := by
  unfold afterChain at done
  split at done
  · obtain ⟨_, flushed, _, done⟩ := bind_ok done
    obtain ⟨_, began, _, done⟩ := bind_ok done
    exact ⟨began, done⟩
  · obtain ⟨_, began, _, done⟩ := bind_ok done
    exact ⟨began, done⟩

/-- What holds whenever the reports have been written holds after chunks that are run to their end. -/
theorem runChunks_settles {again : RunOptions → List Chunk → RunM Unit} {bound : Nat} {options : RunOptions}
    {settled : RunState → Prop}
    (flushes : ∀ {state after}, flushReports options state = (.ok (), after) → settled after)
    {chain : Chain} {chunks : List Chunk} {state after : RunState} (idle : chain.isOpen = false → settled state)
    (done : runChunks again bound options chain chunks state = (.ok (), after)) : settled after := by
  induction chunks generalizing chain state with
  | nil =>
    rw [runChunks_nil] at done
    split at done
    · exact flushes done
    · rename_i closed
      cases done
      exact idle (Bool.eq_false_iff.mpr closed)
  | cons chunk rest step =>
    have ends {middle : RunState}
        (done : (do
          flushReports options
          runChunks again bound options .closed rest) middle = (.ok (), after)) :
        settled after := by
      obtain ⟨_, flushed, wrote, done⟩ := bind_ok done
      exact step (fun _ => flushes wrote) done
    have alone (untaken : chain.takes chunk = false) (closes : chunk.opensChain = false) : settled after := by
      rw [runChunks_alone again bound options untaken closes] at done
      obtain ⟨_, done⟩ := afterChain_ok done
      obtain ⟨_, ran, _, done⟩ := bind_ok done
      exact ends done
    cases chunk with
    | ifBlock guard body =>
      rw [runChunks_if] at done
      obtain ⟨_, done⟩ := afterChain_ok done
      obtain ⟨chosen, _, _, done⟩ := bind_ok done
      exact step (by nofun) done
    | unlessBlock guard body =>
      rw [runChunks_unless] at done
      obtain ⟨_, done⟩ := afterChain_ok done
      obtain ⟨chosen, _, _, done⟩ := bind_ok done
      exact step (by nofun) done
    | eachBlock item key source body =>
      rw [runChunks_each] at done
      obtain ⟨_, done⟩ := afterChain_ok done
      obtain ⟨iterated, _, _, done⟩ := bind_ok done
      exact step (by nofun) done
    | elseIfBlock guard body =>
      cases chain with
      | conditions chosen =>
        rw [runChunks_elseIf] at done
        cases chosen with
        | true =>
          obtain ⟨_, _, _, done⟩ := bind_ok done
          exact step (by nofun) done
        | false =>
          obtain ⟨_, _, _, done⟩ := bind_ok done
          obtain ⟨_, _, _, done⟩ := bind_ok done
          exact step (by nofun) done
      | _ => exact alone rfl rfl
    | elseBlock body =>
      cases isOpen : chain.isOpen with
      | true =>
        rw [runChunks_else again bound options isOpen] at done
        cases isDone : chain.isDone with
        | true =>
          rw [isDone] at done
          exact ends done
        | false =>
          rw [isDone] at done
          obtain ⟨_, _, _, done⟩ := bind_ok done
          exact ends done
      | false =>
        cases chain with
        | closed => exact alone rfl rfl
        | _ => cases isOpen
    | _ => exact alone (by cases chain <;> rfl) rfl

theorem run_drains {bound : Nat} {options : RunOptions} {chunks : List Chunk} {state after : RunState}
    (idle : state.context.reports.pending = []) (done : Render.run bound options chunks state = (.ok (), after)) :
    after.context.reports.pending = [] := by
  cases bound with
  | zero => cases done
  | succ bound =>
    have flushes {state after : RunState} (done : flushReports options state = (.ok (), after)) :
        after.context.reports.pending = [] := by
      have drained := flushReports_drains options state
      rw [done] at drained
      exact drained
    exact runChunks_settles (fun done => flushes done) (fun _ => idle) done

/-! Templates. -/

/-- The end of a run, and of the same run under a host that takes the reports. `made` is what has been
reported, and `messages` are those of the comments. -/
structure Commented (made : List EvalFault) (messages : List String) (context : Context) (sink : Sink)
    (ended heard : Except Halt Unit × RunState) : Prop where
  /-- These are the reports of the run. -/
  faults : ended.2.context.reports.faults = made.reverse ++ context.reports.faults
  /-- The host hears each of them, and none waits to be written. -/
  taken : heard.2.context.reports.taken = some (made.map EvalFault.report)
  silent : heard.2.context.reports.pending = []
  /-- The run does the same, but for the comments. -/
  same : ended.1 = heard.1
  noted : Noted messages heard.2.past ended.2.past
  /-- Each report is written or waits. -/
  complete : messages ++ ended.2.context.reports.pending = made.map EvalFault.report
  /-- The output is what has been written. -/
  output : ended.2.sink.text = sink.text ++ String.join (written ended.2.past)
  outputHeard : heard.2.sink.text = sink.text ++ String.join (written heard.2.past)

/-- For a host that takes no reports, a run writes what it would write for a host that takes them, and
one comment for each report, in their order. If it has come to its end or stopped at an error, no report
is left over. -/
theorem reports_commented (template : Template) (bound : Nat) {context : Context} {sink : Sink}
    (untaken : context.reports.taken = none) (idle : context.reports.pending = [])
    (alone : ∀ name, context.loader name = .missing) (endless : sink.Endless) :
    let ended := template.run bound context sink
    ∃ made messages,
      Commented made messages context sink ended (template.run bound context.listened sink) ∧
      ((ended.1 = .ok () ∨ ∃ message, ended.1 = .error (.stopped message)) →
        ended.2.context.reports.pending = [] ∧ messages = made.map EvalFault.report) := by
  intro ended
  have wrote (context : Context) : Written sink.text { context, sink } := by
    refine ⟨endless, ?_⟩
    unfold written
    simp only [List.reverse_nil, List.filterMap_nil, String.join_nil, String.append_empty]
  have level : Level context.reports.faults sink.text { context := context.forgetLast, sink }
      { context := context.listened.forgetLast, sink } := by
    refine ⟨⟨[], ?_, .nothing⟩, ⟨untaken, alone⟩, ⟨⟨[], rfl, rfl⟩, alone⟩, wrote _, wrote _⟩
    exact (congrArg Context.forgetLast (Context.heard_nil untaken idle)).symm
  obtain ⟨alike, stops⟩ := (attends_assembles context.reports.faults sink.text).run bound
    template.runOptions template.chunks _ _ level
  change Alike _ _ ended (template.run bound context.listened sink) at alike
  have stops : ∀ message, ended.1 = .error (.stopped message) → ended.2.context.reports.pending = [] :=
    stops
  obtain ⟨⟨messages, same, noted⟩, stillUntaken, ⟨⟨made, faults, taken⟩, -⟩, text, textHeard⟩ :=
    alike.related
  rw [List.append_nil] at same
  have complete : messages ++ ended.2.context.reports.pending = made.map EvalFault.report := by
    rw [same] at taken
    change some (messages ++ ended.2.context.reports.pending ++ ended.2.context.reports.taken.getD []) = _
      at taken
    rw [stillUntaken.reports, Option.getD_none, List.append_nil] at taken
    exact Option.some.inj taken
  have silent : (template.run bound context.listened sink).2.context.reports.pending = [] := by
    rw [same]
    rfl
  refine ⟨made, messages, ⟨?_, taken, silent, alike.result, noted, complete, text.text, textHeard.text⟩, ?_⟩
  · rw [same] at faults
    exact faults
  · intro returned
    have drained : ended.2.context.reports.pending = [] := by
      rcases returned with done | ⟨message, stopped⟩
      · exact run_drains idle (Prod.ext done rfl)
      · exact stops message stopped
    refine ⟨drained, ?_⟩
    rw [← complete, drained, List.append_nil]

/-- Two values that are not known, the first one between two texts. -/
def unknowns : Template where
  chunks := [.text "<p>", .output true (.name "first"), .text "</p>", .code (.name "second")]
  includes := []
  pretty := false
  stopOnError := false

theorem unknowns_commented :
    let ended := unknowns.run 1 .new .unlimited
    (∃ made messages,
      Commented made messages .new .unlimited ended (unknowns.run 1 Context.new.listened .unlimited) ∧
        messages = made.map EvalFault.report) ∧
      ended.1 = .ok () ∧ ended.2.context.reports.pending = [] ∧
      ended.2.sink.text = "<p><!-- Context error: Invalid variable name: first --></p>" ++
        "<!-- Context error: Invalid variable name: second -->" := by
  intro ended
  have done : ended.1 = .ok () := by decide +kernel
  have endless : Sink.unlimited.Endless := ⟨rfl, rfl⟩
  obtain ⟨made, messages, commented, returned⟩ :=
    reports_commented unknowns 1 rfl rfl (fun _ => rfl : ∀ name, Context.new.loader name = .missing) endless
  obtain ⟨drained, all⟩ := returned (.inl done)
  exact ⟨⟨made, messages, commented, all⟩, done, drained, by decide +kernel⟩

end HtmlTemplate.Reporting
