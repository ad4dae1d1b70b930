import HtmlTemplate.Host.Samples
import HtmlTemplate.Proofs.Alias.Reachable
import HtmlTemplate.Proofs.Hidden.Runs

/-! Contexts with nothing but what a host has bound, and what of it a template can depend on: what the
names in its expressions stand for. -/

namespace HtmlTemplate

namespace Context

/-- A new context with settings and bindings of the host. -/
inductive HostOnly : Context → Prop where
  | new (loader : String → Loaded) (escapeOutput : Bool) (stepLimit : Option Nat) (steps : Nat)
      (reports : Reports) : HostOnly { Context.new with loader, escapeOutput, stepLimit, steps, reports }
  | set {context : Context} (host : HostOnly context) (name : String) (value : Value) :
      HostOnly (context.set name value)
  | lend {context : Context} (host : HostOnly context) (name : String) (value : Value) :
      HostOnly (context.lend name value)
  | share {context : Context} (host : HostOnly context) (name : String) (value : Value) :
      HostOnly (context.share name value)
  | setObject {context : Context} (host : HostOnly context) (name : String) (value : Value)
      (owner : HostClass) : HostOnly (context.setObject name value owner)
  | setFunction {context : Context} (host : HostOnly context) (name : String) (function : HostFunction) :
      HostOnly (context.setFunction name function)
  | setClass {context : Context} (host : HostOnly context) (hostClass : HostClass) :
      HostOnly (context.setClass hostClass)

theorem HostOnly.reachable {context : Context} (host : HostOnly context) : context.Reachable := by
  induction host with
  | new loader escapeOutput stepLimit steps reports =>
    exact .configure .new loader escapeOutput stepLimit steps reports
  | set _ name value step => exact step.set name value
  | lend _ name value step => exact step.lend name value
  | share _ name value step => exact step.share name value
  | setObject _ name value owner step => exact step.setObject name value owner
  | setFunction _ name function step => exact step.setFunction name function
  | setClass _ hostClass step => exact step.setClass hostClass

/-- One scope without mixins and temporaries, the names of which are no aliases. What the host keeps for
them is there, and is kept for one of them alone. -/
structure Furnished (context : Context) : Prop where
  layers : context.layers = [Frame.empty.layer]
  own : ∀ frame name place mutable, context.binding? frame name ≠ some (.alias place mutable)
  apart : context.Apart
  kept : ∀ {frame name index owner}, context.binding? frame name = some (.value (.hosted index) owner) →
    index < context.hosted.length

namespace Furnished

variable {context : Context}

theorem depth (furnished : context.Furnished) : context.depth = 1 := by
  rw [← length_layers, furnished.layers, List.length_singleton]

theorem bind (furnished : context.Furnished) (name : String) {binding : Binding}
    (own : ∀ place mutable, binding ≠ .alias place mutable)
    (unhosted : ∀ index owner, binding ≠ .value (.hosted index) owner) : (context.bind name binding).Furnished := by
  have earlier {frame : Nat} {word : String} {index : Nat} {owner : Option HostClass}
      (found : (context.bind name binding).binding? frame word = some (.value (.hosted index) owner)) :
      context.binding? frame word = some (.value (.hosted index) owner) := by
    rcases binding?_store_cases found with ⟨-, -, same⟩ | ⟨-, known⟩
    · exact absurd same.symm (unhosted index owner)
    · exact known
  refine ⟨(layers_store ..).trans furnished.layers, ?_, ?_, fun found => furnished.kept (earlier found)⟩
  · intro frame word place mutable found
    rcases binding?_store_cases found with ⟨-, -, same⟩ | ⟨-, known⟩
    · exact own place mutable same.symm
    · exact furnished.own frame word place mutable known
  · exact fun one other => furnished.apart (earlier one) (earlier other)

/-- The host keeps what it shares apart from all that it has shared before. -/
theorem share (furnished : context.Furnished) (name : String) (value : Value) :
    (context.share name value).Furnished := by
  have cases_of {frame : Nat} {word : String} {binding : Binding}
      (found : (context.share name value).binding? frame word = some binding) :
      frame = context.current ∧ word = name ∧ binding = .value (.hosted context.hosted.length) none ∨
        context.binding? frame word = some binding := by
    rcases binding?_store_cases found with here | ⟨-, known⟩
    · exact .inl here
    · exact .inr known
  have grown : (context.share name value).hosted.length = context.hosted.length + 1 := List.length_append
  refine ⟨(layers_store ..).trans furnished.layers, ?_, ?_, ?_⟩
  · intro frame word place mutable found
    rcases cases_of found with ⟨-, -, same⟩ | known
    · cases same
    · exact furnished.own frame word place mutable known
  · intro frame other word second index owner ownerOther found foundOther
    rcases cases_of found with ⟨rfl, rfl, same⟩ | known
    · cases same
      rcases cases_of foundOther with ⟨rfl, rfl, -⟩ | knownOther
      · exact ⟨rfl, rfl⟩
      · exact absurd (furnished.kept knownOther) (Nat.lt_irrefl _)
    · rcases cases_of foundOther with ⟨-, -, same⟩ | knownOther
      · cases same
        exact absurd (furnished.kept known) (Nat.lt_irrefl _)
      · exact furnished.apart known knownOther
  · intro frame word index owner found
    rw [grown]
    rcases cases_of found with ⟨-, -, same⟩ | known
    · cases same
      exact Nat.lt_succ_self _
    · exact Nat.lt_succ_of_lt (furnished.kept known)

end Furnished

theorem HostOnly.furnished {context : Context} (host : HostOnly context) : context.Furnished := by
  induction host with
  | new loader escapeOutput stepLimit steps reports =>
    have unbound {frame : Nat} {name : String} {binding : Binding} :
        Context.binding? { Context.new with loader, escapeOutput, stepLimit, steps, reports } frame name ≠
          some binding := by
      cases frame <;> nofun
    refine ⟨rfl, ?_, ?_, ?_⟩
    · exact fun frame name place mutable found => unbound found
    · exact fun one _ => absurd one unbound
    · exact fun found => absurd found unbound
  | set _ name value step => exact step.bind name (by simp [Binding.ofValue]) (by simp [Binding.ofValue])
  | lend _ name value step => exact step.bind name (by simp) (by simp)
  | share _ name value step => exact step.share name value
  | setObject _ name value owner step => exact step.bind name (by simp) (by simp)
  | setFunction _ name function step => exact step.bind name (by simp) (by simp)
  | setClass _ hostClass step => exact step.bind hostClass.name (by simp) (by simp)

/-- In a single scope the host reads what a name that is no alias stands for itself. -/
theorem get?_eq {context : Context} (alone : context.depth = 1) {name : String}
    (own : ∀ place mutable, context.binding? 0 name ≠ some (.alias place mutable)) :
    context.get? name = context.rootValue? (.slot 0 name) := by
  obtain ⟨frame, frames⟩ := List.length_eq_one_iff.mp alone
  have resolved := resolve?_slot (aliasRoot?_of_own own)
  have bound : context.binding? 0 name = frame.bindings.lookup name := by
    rw [binding?_eq, frames]
    rfl
  unfold get? find?
  rw [frames]
  cases known : frame.bindings.contains name with
  | true =>
    have found : findIn name [frame] = some 0 := by
      unfold findIn findIn
      rw [known]
      rfl
    rw [found]
    exact resolved
  | false =>
    have missing : findIn name [frame] = none := by
      unfold findIn findIn
      rw [known]
      rfl
    have unbound : context.binding? 0 name = none := by
      rw [bound]
      exact Option.isSome_eq_false_iff.mp known |> Option.isNone_iff_eq_none.mp
    rw [missing, rootValue?_of_unbound unbound]
    rfl

/-- A name stands for the same kind of thing, with the same class and the same value. -/
structure SameMeaning (first second : Context) (name : String) : Prop where
  kind : (first.binding? 0 name).map Binding.kind = (second.binding? 0 name).map Binding.kind
  value : first.get? name = second.get? name

/-- A name still stands for what it stood for, and that has not changed. -/
structure Untouched (before after : Context) (name : String) : Prop where
  binding : after.binding? 0 name = before.binding? 0 name
  value : after.get? name = before.get? name

variable {known : String → Prop} {first second : Context}

namespace HostOnly

theorem fenced {context : Context} (host : HostOnly context) : Fenced known context context.forgetLast := by
  have same : context.forgetLast.frames = context.frames := rfl
  exact ⟨(host.reachable.sound.of_frames same).1, host.furnished.apart, fun _ => ⟨rfl, rfl⟩⟩

theorem level (host : HostOnly first) (hostTwin : HostOnly second) (settings : first.SameSettings second)
    (agree : ∀ name, known name → first.SameMeaning second name) : Level known first second := by
  have furnished := host.furnished
  have furnishedTwin := hostTwin.furnished
  have unbound {context : Context} (furnished : context.Furnished) (frame : Nat) (name : String) :
      context.binding? (frame + 1) name = none := by
    rw [binding?_eq, List.getElem?_eq_none (by rw [← Context.depth, furnished.depth]; omega)]
    rfl
  refine ⟨furnished.layers.trans furnishedTwin.layers.symm, ?_, ?_, ?_, ?_, settings⟩
  · intro frame name visible
    cases frame with
    | zero => exact (agree name visible).kind
    | succ frame => rw [unbound furnished, unbound furnishedTwin]
  · intro frame name visible
    cases frame with
    | zero =>
      rw [← get?_eq furnished.depth (furnished.own 0 name), (agree name visible).value,
        get?_eq furnishedTwin.depth (furnishedTwin.own 0 name)]
    | succ frame =>
      rw [rootValue?_of_unbound (unbound furnished frame name),
        rootValue?_of_unbound (unbound furnishedTwin frame name)]
  · intro root target _ leads
    cases root with
    | temp frame index => cases leads
    | slot frame name =>
      rw [aliasRoot?_of_own (furnished.own frame name)] at leads
      cases leads
  · intro layer member name mixin found
    rw [furnished.layers] at member
    rw [List.mem_singleton.mp member] at found
    cases found

/-- Two contexts of a host, when a run begins in them. -/
theorem tied (host : HostOnly first) (hostTwin : HostOnly second) (settings : first.SameSettings second)
    (agree : ∀ name, known name → first.SameMeaning second name)
    (taking : first.reports.taken.isSome = second.reports.taken.isSome)
    (waiting : first.reports.pending = second.reports.pending) :
    Tied known first second first.forgetLast second.forgetLast := by
  have level := host.level hostTwin settings agree
  have begun : first.forgetLast.SameSettings second.forgetLast :=
    ⟨settings.escapeOutput, settings.stepLimit, settings.steps⟩
  refine ⟨host.fenced, hostTwin.fenced, ?_, .begun taking waiting⟩
  exact level.of_fewer level.layers level.familiar begun rfl rfl fun _ _ => .inl ⟨rfl, rfl⟩

end HostOnly

/-- What is fenced off from a single scope is untouched. -/
theorem Fenced.untouched {start after : Context} (fenced : Fenced known start after) (host : HostOnly start)
    (grown : start.Extends after) {name : String} (unknown : ¬ known name) : start.Untouched after name := by
  have furnished := host.furnished
  obtain ⟨binding, value⟩ := fenced.hidden unknown
  have own : ∀ place mutable, after.binding? 0 name ≠ some (.alias place mutable) := by
    rw [binding]
    exact furnished.own 0 name
  refine ⟨binding, ?_⟩
  rw [get?_eq (grown.depth.trans furnished.depth) own, value, get?_eq furnished.depth (furnished.own 0 name)]

end Context

namespace Hidden

open Rules Context

/-- A template that includes no others, and two contexts of a host with the same flags, the same limit and
a callback in both or in neither, in which the names in its expressions stand for the same. -/
structure AlikeFor (template : Template) (first second : Context) : Prop where
  alone : Chunk.includingIn template.chunks = false
  host : first.HostOnly
  hostTwin : second.HostOnly
  escapeOutput : first.escapeOutput = second.escapeOutput
  stepLimit : first.stepLimit = second.stepLimit
  taking : first.reports.taken.isSome = second.reports.taken.isSome
  agree : ∀ name ∈ Chunk.namesIn template.chunks, first.SameMeaning second name

/-- If the same reports wait in the two contexts, and as many steps are left in them, a template does the
same in both: it ends the same way, with the same output, and the same is reported meanwhile, whatever else
the host has bound. And it leaves all other names as they were. -/
theorem unmentioned_unseen {template : Template} {first second : Context} (alike : AlikeFor template first second)
    (waiting : first.reports.pending = second.reports.pending)
    (steps : first.stepLimit.isSome = true → first.steps = second.steps) (sink : Sink) (bound : Nat) :
    let ended := template.run bound first sink
    let twin := template.run bound second sink
    ended.1 = twin.1 ∧ ended.2.sink = twin.2.sink ∧
    first.reports.SameSince second.reports ended.2.context.reports twin.2.context.reports ∧
    ∀ name, name ∉ Chunk.namesIn template.chunks →
      first.Untouched ended.2.context name ∧ second.Untouched twin.2.context name := by
  intro ended twin
  have covers : Covers (· ∈ Chunk.namesIn template.chunks) False template.chunks := by
    refine ⟨fun _ member => member, fun included => ?_⟩
    rw [alike.alone] at included
    cases included
  have tied : Tied (· ∈ Chunk.namesIn template.chunks) first second first.forgetLast second.forgetLast :=
    alike.host.tied alike.hostTwin ⟨alike.escapeOutput, alike.stepLimit, steps⟩ alike.agree alike.taking waiting
  have mirrors : Mirrors (· ∈ Chunk.namesIn template.chunks) first second
      (Render.run bound template.runOptions template.chunks) :=
    run_mirrors bound template.runOptions template.chunks covers
  have abreast : Alike (· = ·) (Abreast (· ∈ Chunk.namesIn template.chunks) first second) ended twin :=
    mirrors.pairs { context := first.forgetLast, sink } { context := second.forgetLast, sink } ⟨tied, rfl⟩
  have later := abreast.related
  have grown := (template_run_keeps sound_kept template bound alike.host.reachable.sound sink).2
  have grownTwin := (template_run_keeps sound_kept template bound alike.hostTwin.reachable.sound sink).2
  refine ⟨abreast.result, later.sink, later.tied.reports, fun name unknown => ?_⟩
  exact ⟨later.tied.fenced.untouched alike.host grown unknown,
    later.tied.fencedTwin.untouched alike.hostTwin grownTwin unknown⟩

def remark : Template where
  chunks := [.text "a"]
  includes := []
  pretty := false
  stopOnError := false

/-- A loop with a single pass. -/
def once : Template where
  chunks := [.eachBlock "item" none (.literal (.int 1)) [.text "a"]]
  includes := []
  pretty := false
  stopOnError := false

def limited : Context := Context.new.setStepLimit (some 1)

/-- A report that waits is written by the next run, whatever its template. And a run has only the steps
that those before it have left. -/
theorem leftovers_seen :
    (AlikeFor remark Context.new (Context.new.report "late") ∧
      (remark.run 9 Context.new .unlimited).2.sink.text = "a" ∧
      (remark.run 9 (Context.new.report "late") .unlimited).2.sink.text = "a<!-- Context error: late -->") ∧
    AlikeFor once limited limited.step.2 ∧
    (once.run 9 limited .unlimited).2.sink.text = "a" ∧
    (once.run 9 limited.step.2 .unlimited).2.sink.text = "<!-- Context error: Step limit exceeded -->" := by
  have late : Context.HostOnly (Context.new.report "late") :=
    .new (fun _ => .missing) true none 0 (Reports.none.add (.host "late"))
  have fresh : limited.HostOnly := .new (fun _ => .missing) true (some 1) 0 .none
  have stepped : limited.step.2.HostOnly := .new (fun _ => .missing) true (some 1) 1 .none
  refine ⟨⟨⟨rfl, .new .., late, rfl, rfl, rfl, fun _ _ => ⟨rfl, rfl⟩⟩, ?_, ?_⟩,
    ⟨rfl, fresh, stepped, rfl, rfl, rfl, fun _ _ => ⟨rfl, rfl⟩⟩, ?_, ?_⟩
  all_goals decide +kernel

/-- A loop over an array, with a call for each element, then a change of the array, and a name that stands
for nothing. -/
def listing : Template where
  chunks :=
    [.eachBlock "item" none (.name "items") [.output false (.binary .call (.name "upper") (.name "item"))],
      .code (.binary .assign (.binary .subscript (.name "items") (.literal (.int 0))) (.literal (.text "c"))),
      .output false (.name "nothing")]
  includes := []
  pretty := false
  stopOnError := false

def shelf : Context :=
  ((Context.new.setFunction "upper" Host.upper).share "items" (.array [.text "a", .text "b"])).set "note" (.text "d")

/-- The host keeps the same array in another place here, and has asked for a report before. -/
def otherShelf : Context :=
  (((((((Context.new.report "early").takePending.2.step.2.setFunction "upper" Host.upper).setFunction "count"
    Host.count).setClass Host.math).setObject "owner" (.dict []) Host.person).share "stock" (.array [])).share
      "items" (.array [.text "a", .text "b"])).lend "note" (.int 0)

theorem shelves_alike :
    let ended := listing.run 9 shelf .unlimited
    let twin := listing.run 9 otherShelf .unlimited
    (AlikeFor listing shelf otherShelf ∧ shelf.reports.pending = otherShelf.reports.pending ∧
      (shelf.stepLimit.isSome = true → shelf.steps = otherShelf.steps) ∧
      shelf.steps ≠ otherShelf.steps ∧ "note" ∉ Chunk.namesIn listing.chunks) ∧
    ended.2.sink.text = "AB<!-- Context error: Invalid variable name: nothing -->" ∧
    ended.1 = twin.1 ∧ ended.2.sink = twin.2.sink ∧
    shelf.reports.SameSince otherShelf.reports ended.2.context.reports twin.2.context.reports ∧
    shelf.Untouched ended.2.context "note" ∧ otherShelf.Untouched twin.2.context "note" := by
  intro ended twin
  have host : shelf.HostOnly := .set (.share (.setFunction (.new ..) ..) ..) ..
  have used : Context.HostOnly (Context.new.report "early").takePending.2.step.2 :=
    .new (fun _ => .missing) true none 1 { (Reports.none.add (.host "early")) with pending := [] }
  have hostTwin : otherShelf.HostOnly :=
    .lend (.share (.share (.setObject (.setClass (.setFunction (.setFunction used ..) ..) ..) ..) ..) ..) ..
  have agree : ∀ name ∈ Chunk.namesIn listing.chunks, shelf.SameMeaning otherShelf name := by
    intro name member
    have named : Chunk.namesIn listing.chunks = ["items", "upper", "item", "items", "nothing"] := rfl
    rw [named] at member
    simp only [List.mem_cons, List.not_mem_nil, or_false] at member
    rcases member with rfl | rfl | rfl | rfl | rfl
    all_goals exact ⟨rfl, rfl⟩
  have unknown : "note" ∉ Chunk.namesIn listing.chunks := by decide
  have alike : AlikeFor listing shelf otherShelf := ⟨rfl, host, hostTwin, rfl, rfl, rfl, agree⟩
  obtain ⟨result, sink, reports, untouched⟩ := unmentioned_unseen alike rfl nofun .unlimited 9
  refine ⟨⟨alike, rfl, nofun, by decide, unknown⟩, by decide +kernel, result, sink, reports, ?_⟩
  exact untouched "note" unknown

end Hidden

end HtmlTemplate
