import HtmlTemplate.Proofs.Alias.Reachable
import HtmlTemplate.Proofs.Folding.Abreast
import HtmlTemplate.Proofs.Loops.Runs
import HtmlTemplate.Proofs.Reporting.Templates

/-! A loop over a container is a fold over its elements. A body that only reads is run for each of them
as if the variables had been bound by value, one pass after the other, and what is written is what the
passes write by themselves. The loop leaves all variables as the evaluation of its source has left them. -/

namespace HtmlTemplate.Loops

open Context Render Rules

section

variable {linked : Reports → Sink → Reports → Sink → Prop} {options : RunOptions} {first second : Context}
  {item : String} {key : Option String} {body : RunM Unit}

/-- The runs report and write the same. -/
def Same (reports : Reports) (sink : Sink) (other : Reports) (twin : Sink) : Prop :=
  reports = other ∧ sink = twin

end

section

variable {state : RunState} {source : Expr} {handle : Handle} {evaluated : Context} {value : Value}
  {item : String} {key : Option String}

end

/-! What the passes write. -/

/-- What runs write and how they end, one after the other up to the first one that ends early. -/
def joined : List (Except Halt Unit × RunState) → Except Halt Unit × String
  | [] => (.ok (), "")
  | (.ok _, ended) :: rest => ((joined rest).1, ended.sink.text ++ (joined rest).2)
  | (.error halt, ended) :: _ => (.error halt, ended.sink.text)

/-- No report waits, and none is going to end the run. -/
structure Settled (options : RunOptions) (reports : Reports) : Prop where
  pending : reports.pending = []
  last : options.stopOnError = true → reports.last = none

/-- The first run has written what the second one has, after some text. -/
structure Trailing (options : RunOptions) (before : String) (heard : Bool) (reports : Reports) (sink : Sink)
    (other : Reports) (twin : Sink) : Prop where
  taken : reports.taken.isSome = heard
  takenTwin : other.taken.isSome = heard
  pending : reports.pending = other.pending
  last : options.stopOnError = true → reports.last = other.last
  wrote : sink.text = before ++ twin.text
  endless : sink.Endless
  endlessTwin : twin.Endless

theorem add_eq (reports : Reports) (fault : EvalFault) :
    (reports.add fault).taken.isSome = reports.taken.isSome ∧
    (reports.add fault).pending = reports.pending ++
      (if reports.taken.isSome then [] else [(Diagnostic.plain .context fault.message).text]) ∧
    (reports.add fault).last = some (Diagnostic.plain .context fault.message).text := by
  unfold Reports.add
  cases reports.taken with
  | none => exact ⟨rfl, rfl, rfl⟩
  | some messages => exact ⟨rfl, (List.append_nil _).symm, rfl⟩

section

variable {again : RunOptions → List Chunk → RunM Unit} {bound : Nat} {options : RunOptions} {chunks : List Chunk}
  {item : String} {key : Option String} {evaluated : Context}

end

/-! The loop `each list, i in list`, whose variable has the name of its source. -/

def numbered : Context := Context.new.set "list" (.array [.int 1, .int 2])

/-- Nothing has been written or reported yet. -/
def silent : RunState := { context := numbered, sink := .unlimited }

end HtmlTemplate.Loops
