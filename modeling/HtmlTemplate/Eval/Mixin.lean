import HtmlTemplate.Eval.Reported

/-! Defining mixins and opening the scope of a call. -/

namespace HtmlTemplate

namespace Mixin

/-- One parameter: a name alone, or a name with a default. -/
def parameter? (item : Expr) : Option (String × Option Expr) :=
  match item.name?, item.assignment? with
  | some name, _ => some (name, none)
  | none, some (target, default) => target.name?.map fun name => (name, some default)
  | none, none => none

/-- Adds parameters to those before them; one with a default is followed by no other kind. -/
def addParameters (read : List (String × Option Expr)) :
    List Expr → Except EvalFault (List (String × Option Expr))
  | [] => .ok read
  | item :: rest =>
    match parameter? item with
    | none => .error .invalidMixin
    | some parameter =>
      if parameter.2.isNone && read.any fun earlier => earlier.2.isSome then .error .invalidMixin
      else addParameters (read ++ [parameter]) rest

/-- The parameters in the signature of a mixin: its name, or a call of it. -/
def parameters? (signature : Expr) : Except EvalFault (List (String × Option Expr)) :=
  match signature.name?, signature.call? with
  | some _, _ => .ok []
  | none, some (_, arguments) => addParameters [] arguments.items
  | none, none => .error .invalidMixin

/-- After a parameter with a default come no others. -/
def Ordered (parameters : List (String × Option Expr)) : Prop :=
  parameters.Pairwise fun earlier later => earlier.2.isSome → later.2.isSome

theorem ordered_of_addParameters {read : List (String × Option Expr)} {items : List Expr}
    {parameters : List (String × Option Expr)} (ordered : Ordered read)
    (found : addParameters read items = .ok parameters) : Ordered parameters := by
  induction items generalizing read with
  | nil =>
    cases found
    exact ordered
  | cons item rest step =>
    unfold addParameters at found
    split at found
    · cases found
    · rename_i parameter _
      split at found
      · cases found
      · rename_i allowed
        apply step _ found
        refine List.pairwise_append.mpr ⟨ordered, List.pairwise_singleton _ _, ?_⟩
        intro earlier member later same known
        obtain rfl := List.mem_singleton.mp same
        cases missing : later.2 with
        | some default => rfl
        | none =>
          exfalso
          apply allowed
          simp only [missing, Option.isNone_none, Bool.true_and, List.any_eq_true]
          exact ⟨earlier, member, known⟩

theorem ordered_of_parameters? {signature : Expr} {parameters : List (String × Option Expr)}
    (found : parameters? signature = .ok parameters) : Ordered parameters := by
  unfold parameters? at found
  split at found
  · cases found
    exact .nil
  · exact ordered_of_addParameters .nil found
  · cases found

/-- A mixin from its definition in a template. -/
def ofDefinition (name : String) (signature : Expr) (body : List Chunk) :
    Except EvalFault Mixin :=
  match found : parameters? signature with
  | .ok parameters => .ok { name, parameters, ordered := ordered_of_parameters? found, body }
  | .error fault => .error fault

/-- Binds the parameters in the innermost scope, to the arguments as far as they go and then
to the defaults. Tells whether every parameter has got a value. -/
def bindParameters (mixin : String) :
    List (String × Option Expr) → List Value → Context → Bool × Context
  | [], _, context => (true, context)
  | (name, _) :: rest, argument :: arguments, context =>
    bindParameters mixin rest arguments (context.set name argument)
  | (name, some default) :: rest, [], context =>
    let (value, after) := context.execValue default
    bindParameters mixin rest [] (after.set name value)
  | (name, none) :: _, [], context =>
    (false, context.reportFault (.missingArgument mixin name))

/-- Opens the scope of a call, unless an argument is missing. -/
def enter (mixin : Mixin) (arguments : List Value) (context : Context) : Bool × Context :=
  match bindParameters mixin.name mixin.parameters arguments context.pushScope with
  | (true, entered) => (true, entered)
  | (false, refused) => (false, refused.popScope)

end Mixin

end HtmlTemplate
